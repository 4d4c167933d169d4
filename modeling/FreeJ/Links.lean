import Mathlib.Data.List.Basic
import Mathlib.Data.List.Induction
import Mathlib.Data.List.Nodup
import Mathlib.Logic.Function.Basic

/-!
# Doubly Linked Chains

A doubly linked structure is seen here as two partial functions `next` and `prev` on an
arbitrary type of nodes. Two readings of it are developed and related:

* `Walk link p xs` — starting at `p` and following one link visits exactly `xs` and then
  runs off the end. This is what a program that traverses the structure observes.
* `Chain next prev b xs a` — the members of `xs` are linked both ways in list order,
  with `b` before the first and `a` after the last of them. This is what a program that
  edits the structure maintains.

## Main results

* `Chain.walk_next` / `Chain.walk_prev` / `chain_of_walks`: a complete chain is the same
  thing as two walks that are each other's reverse.
* `Walk.nodup`: a walk that ends never meets a node twice.
* `chain_append`: chains compose at a seam, so an edit is checked on its own segment.
* `Chain.relink_last` / `Chain.relink_head`: the two one-sided edits at a seam, and from
  them `Chain.unlink`, `Chain.insert`, `Chain.transpose` and `Chain.exchange`.
* `Walk.follow_eq`: following a link a bounded number of times is plain indexing.
-/

namespace Links

variable {E : Type*}

/-! ### Walks along one link -/

/-- Starting at `p` and following `link` visits exactly `xs` and then runs off the
end. -/
def Walk (link : E → Option E) : Option E → List E → Prop
  | p, [] => p = none
  | p, e :: xs => p = some e ∧ Walk link (link e) xs

variable {link : E → Option E} {p : Option E} {xs ys zs : List E}

/-- A walk starts at the head of what it visits. -/
theorem Walk.eq_head? (h : Walk link p xs) : p = xs.head? := by
  cases xs with
  | nil => exact h
  | cons e xs => exact h.1

/-- The tail of a walk is a walk from the node where it resumes. -/
theorem Walk.drop_append (h : Walk link p (xs ++ ys)) : Walk link ys.head? ys := by
  induction xs generalizing p with
  | nil =>
      have hp := h.eq_head?
      rwa [List.nil_append, hp] at h
  | cons e xs ih => exact ih h.2

/-- What a walk visits is determined by where it starts. -/
theorem Walk.unique (h : Walk link p xs) (h' : Walk link p ys) : xs = ys := by
  induction xs generalizing p ys with
  | nil =>
      cases ys with
      | nil => rfl
      | cons e ys => exact absurd (h.symm.trans h'.1) (by simp)
  | cons e xs ih =>
      cases ys with
      | nil => exact absurd (h'.symm.trans h.1) (by simp)
      | cons e' ys =>
          obtain rfl : e = e' := Option.some.inj (h.1.symm.trans h'.1)
          rw [ih h.2 h'.2]

/-- **A walk that ends never meets a node twice**: from a repeated node the rest of the
walk would have to be longer than itself. -/
theorem Walk.nodup (h : Walk link p xs) : xs.Nodup := by
  induction xs generalizing p with
  | nil => exact List.nodup_nil
  | cons e xs ih =>
      refine List.nodup_cons.mpr ⟨fun hmem => ?_, ih h.2⟩
      obtain ⟨us, vs, rfl⟩ := List.append_of_mem hmem
      have hrest : Walk link (some e) (e :: vs) := h.2.drop_append
      have heq := hrest.2.unique h.2
      have hlen := congrArg List.length heq
      simp only [List.length_append, List.length_cons] at hlen
      omega

/-- Following `link` from `p` exactly `k` times; `none` when a step starts from a null
reference. -/
def follow (link : E → Option E) : ℕ → Option E → Option (Option E)
  | 0, p => some p
  | _ + 1, none => none
  | k + 1, some e => follow link k (link e)

/-- Along a walk, following the link `k` times is indexing: it never starts a step from
a null reference as long as it stays within the walk. -/
theorem Walk.follow_eq (h : Walk link p xs) {k : ℕ} (hk : k ≤ xs.length) :
    follow link k p = some xs[k]? := by
  induction k generalizing p xs with
  | zero =>
      rw [follow, h.eq_head?, List.head?_eq_getElem?]
  | succ k ih =>
      cases xs with
      | nil => simp at hk
      | cons e xs =>
          rw [h.1, follow, ih h.2 (by simpa using hk), List.getElem?_cons_succ]

/-- Along a walk the link leads from one node to the next. -/
theorem Walk.link_eq {e : E} {i : ℕ} (h : Walk link p xs) (hi : xs[i]? = some e) :
    link e = xs[i + 1]? := by
  induction i generalizing p xs with
  | zero =>
      cases xs with
      | nil => cases hi
      | cons x xs =>
          obtain rfl : x = e := Option.some.inj hi
          rw [h.2.eq_head?, List.getElem?_cons_succ, List.head?_eq_getElem?]
  | succ i ih =>
      cases xs with
      | nil => cases hi
      | cons x xs => exact ih h.2 hi

/-! ### Chains -/

/-- The members of `xs` are linked both ways in list order, `b` being what precedes the
first of them and `a` what follows the last. -/
def Chain (next prev : E → Option E) : Option E → List E → Option E → Prop
  | _, [], _ => True
  | b, e :: xs, a => prev e = b ∧ next e = xs.head?.or a ∧ Chain next prev (some e) xs a

variable {next prev next' prev' : E → Option E} {b a : Option E}

@[simp] theorem chain_nil : Chain next prev b [] a := trivial

@[simp] theorem chain_cons {e : E} :
    Chain next prev b (e :: xs) a ↔
      prev e = b ∧ next e = xs.head?.or a ∧ Chain next prev (some e) xs a :=
  Iff.rfl

/-- **Chains compose at a seam**: each part sees the other only through its end. -/
theorem chain_append :
    Chain next prev b (xs ++ ys) a ↔
      Chain next prev b xs (ys.head?.or a) ∧ Chain next prev (xs.getLast?.or b) ys a := by
  induction xs generalizing b with
  | nil => simp
  | cons e xs ih =>
      have hhead : (xs ++ ys).head?.or a = xs.head?.or (ys.head?.or a) := by
        rw [List.head?_append, Option.or_assoc]
      have hlast : (e :: xs).getLast?.or b = xs.getLast?.or (some e) := by
        rw [List.getLast?_cons]
        cases xs.getLast? <;> rfl
      rw [List.cons_append, chain_cons, chain_cons, ih, hhead, hlast]
      tauto

/-- A chain reads the links of its own members only. -/
theorem chain_congr (h : ∀ e ∈ xs, next' e = next e ∧ prev' e = prev e) :
    Chain next' prev' b xs a ↔ Chain next prev b xs a := by
  induction xs generalizing b with
  | nil => rfl
  | cons e xs ih =>
      obtain ⟨hn, hp⟩ := h e List.mem_cons_self
      rw [chain_cons, chain_cons, hn, hp, ih fun x hx => h x (List.mem_cons_of_mem _ hx)]

/-- The links of a member, read off at its place in the chain. -/
theorem Chain.links_of_append {e : E} (h : Chain next prev b (xs ++ e :: ys) a) :
    next e = ys.head?.or a ∧ prev e = xs.getLast?.or b := by
  obtain ⟨-, hp, hn, -⟩ := chain_append.mp h
  exact ⟨hn, hp⟩

/-- A chain that ends is walked forward along `next`. -/
theorem Chain.walk_next (h : Chain next prev b xs none) : Walk next xs.head? xs := by
  induction xs generalizing b with
  | nil => rfl
  | cons e xs ih =>
      have hn : next e = xs.head? := by simpa using h.2.1
      exact ⟨rfl, hn ▸ ih h.2.2⟩

/-- A chain that begins is walked backward along `prev`. -/
theorem Chain.walk_prev (h : Chain next prev none xs a) :
    Walk prev xs.getLast? xs.reverse := by
  induction xs using List.reverseRecOn generalizing a with
  | nil => rfl
  | append_singleton xs e ih =>
      obtain ⟨hxs, hp, -⟩ := chain_append.mp h
      have hpe : prev e = xs.getLast? := by simpa using hp
      rw [List.reverse_append, List.getLast?_append]
      exact ⟨rfl, hpe ▸ ih hxs⟩

/-- **Two walks that are each other's reverse are a chain.** The walk along `prev` is
carried past the nodes already seen, which is what the extra list `zs` records. -/
theorem chain_of_walks {q : Option E} (hn : Walk next p xs)
    (hp : Walk prev q (xs.reverse ++ zs)) : Chain next prev zs.head? xs none := by
  induction xs generalizing p zs with
  | nil => trivial
  | cons e xs ih =>
      rw [List.reverse_cons, List.append_assoc] at hp
      have hat : Walk prev (some e) (e :: zs) := hp.drop_append
      refine ⟨hat.2.eq_head?, ?_, ih hn.2 hp⟩
      rw [hn.2.eq_head?, Option.or_none]

/-- At a seam without repetition the first node after it is not among those before. -/
theorem head?_ne_of_nodup_append (hnd : (xs ++ ys).Nodup) : ∀ e ∈ xs, ys.head? ≠ some e :=
  fun _ he hh => List.disjoint_of_nodup_append hnd he (List.mem_of_mem_head? hh)

/-- At a seam without repetition the last node before it is not among those after. -/
theorem getLast?_ne_of_nodup_append (hnd : (xs ++ ys).Nodup) :
    ∀ e ∈ ys, xs.getLast? ≠ some e :=
  fun _ he hh => List.disjoint_of_nodup_append hnd (List.mem_of_getLast? hh) he

/-- Splitting a list at a position that is occupied. -/
theorem exists_append_of_getElem? {e : E} {i : ℕ} (h : xs[i]? = some e) :
    ∃ us vs, xs = us ++ e :: vs ∧ us.length = i := by
  obtain ⟨hi, rfl⟩ := List.getElem?_eq_some_iff.mp h
  refine ⟨xs.take i, xs.drop (i + 1), ?_, List.length_take_of_le (Nat.le_of_lt hi)⟩
  rw [List.getElem_cons_drop, List.take_append_drop]

/-! ### Edits -/

section Edits

variable [DecidableEq E]

/-- Redirect the link of `p`, when there is one, to `v`. -/
def relink (link : E → Option E) (p v : Option E) : E → Option E :=
  match p with
  | none => link
  | some e => Function.update link e v

@[simp] theorem relink_none (v : Option E) : relink link none v = link := rfl

@[simp] theorem relink_some (e : E) (v : Option E) :
    relink link (some e) v = Function.update link e v := rfl

theorem relink_of_ne {e : E} {v : Option E} (h : p ≠ some e) : relink link p v e = link e := by
  cases p with
  | none => rfl
  | some x => exact Function.update_of_ne (fun hex => h (congrArg some hex.symm)) _ _

/-- Redirecting one link leaves the others as they were. -/
theorem relink_congr {f g : E → Option E} {q v : Option E} {x : E} (h : f x = g x) :
    relink f q v x = relink g q v x := by
  cases q with
  | none => exact h
  | some e => simp only [relink_some, Function.update_apply, h]

/-- Redirecting a `next` link outside the chain leaves it alone. -/
theorem chain_relink_next {v : Option E} (h : ∀ e ∈ xs, p ≠ some e) :
    Chain (relink next p v) prev b xs a ↔ Chain next prev b xs a :=
  chain_congr fun e he => ⟨relink_of_ne (h e he), rfl⟩

/-- Redirecting a `prev` link outside the chain leaves it alone. -/
theorem chain_relink_prev {v : Option E} (h : ∀ e ∈ xs, p ≠ some e) :
    Chain next (relink prev p v) b xs a ↔ Chain next prev b xs a :=
  chain_congr fun e he => ⟨rfl, relink_of_ne (h e he)⟩

/-- Setting a `next` link outside the chain leaves it alone. -/
theorem chain_update_next {e : E} {v : Option E} (h : e ∉ xs) :
    Chain (Function.update next e v) prev b xs a ↔ Chain next prev b xs a :=
  chain_congr fun _ hx => ⟨Function.update_of_ne (ne_of_mem_of_not_mem hx h) _ _, rfl⟩

/-- Setting a `prev` link outside the chain leaves it alone. -/
theorem chain_update_prev {e : E} {v : Option E} (h : e ∉ xs) :
    Chain next (Function.update prev e v) b xs a ↔ Chain next prev b xs a :=
  chain_congr fun _ hx => ⟨rfl, Function.update_of_ne (ne_of_mem_of_not_mem hx h) _ _⟩

/-- Redirecting the last `next` link changes what follows the chain, and nothing
else. -/
theorem Chain.relink_last (h : Chain next prev b xs a) (hnd : xs.Nodup) (v : Option E) :
    Chain (relink next xs.getLast? v) prev b xs v := by
  rcases xs.eq_nil_or_concat with rfl | ⟨ys, e, rfl⟩
  · trivial
  · rw [List.concat_eq_append] at h hnd ⊢
    rw [List.getLast?_concat]
    have he : e ∉ ys := by
      intro hmem
      have := List.disjoint_of_nodup_append hnd
      exact this hmem (by simp)
    obtain ⟨hys, hp, -⟩ := chain_append.mp h
    refine chain_append.mpr ⟨?_, hp, by simp, trivial⟩
    exact (chain_update_next he).mpr hys

/-- Redirecting the first `prev` link changes what precedes the chain, and nothing
else. -/
theorem Chain.relink_head (h : Chain next prev b xs a) (hnd : xs.Nodup) (v : Option E) :
    Chain next (relink prev xs.head? v) v xs a := by
  cases xs with
  | nil => trivial
  | cons e ys =>
      obtain ⟨-, hn, hys⟩ := h
      refine ⟨by simp, hn, ?_⟩
      exact (chain_update_prev (List.nodup_cons.mp hnd).1).mpr hys

/-- Bridging a seam: when the two sides are linked up to it, redirecting the two links at
the seam to each other's end joins them. -/
theorem Chain.bridge {a' b' : Option E} (hxs : Chain next prev b xs a')
    (hys : Chain next prev b' ys a) (hnd : (xs ++ ys).Nodup) :
    Chain (relink next xs.getLast? (ys.head?.or a))
      (relink prev ys.head? (xs.getLast?.or b)) b (xs ++ ys) a := by
  have hndx : xs.Nodup := hnd.of_append_left
  have hndy : ys.Nodup := hnd.of_append_right
  refine chain_append.mpr ⟨?_, ?_⟩
  · exact (chain_relink_prev (head?_ne_of_nodup_append hnd)).mpr (hxs.relink_last hndx _)
  · exact (chain_relink_next (getLast?_ne_of_nodup_append hnd)).mpr (hys.relink_head hndy _)

/-- **Unlinking** a node: its neighbours are linked to each other. -/
theorem Chain.unlink {e : E} (h : Chain next prev b (xs ++ e :: ys) a)
    (hnd : (xs ++ e :: ys).Nodup) :
    Chain (relink next xs.getLast? (ys.head?.or a))
      (relink prev ys.head? (xs.getLast?.or b)) b (xs ++ ys) a := by
  obtain ⟨hxs, -, -, hys⟩ := chain_append.mp h
  exact hxs.bridge hys (hnd.sublist (by simp))

/-- **Inserting** a new node in between two neighbours. -/
theorem Chain.insert {e : E} (h : Chain next prev b (xs ++ ys) a)
    (hnd : (xs ++ e :: ys).Nodup) :
    Chain (Function.update (relink next xs.getLast? (some e)) e (ys.head?.or a))
      (Function.update (relink prev ys.head? (some e)) e (xs.getLast?.or b)) b
      (xs ++ e :: ys) a := by
  obtain ⟨hxs, hys⟩ := chain_append.mp h
  obtain ⟨hndx, hndey, -⟩ := List.nodup_append.mp hnd
  obtain ⟨hey, hndy⟩ := List.nodup_cons.mp hndey
  have hex : e ∉ xs := fun hmem => List.disjoint_of_nodup_append hnd hmem List.mem_cons_self
  have hndxy : (xs ++ ys).Nodup := hnd.sublist (by simp)
  refine chain_append.mpr ⟨?_, by simp, by simp, ?_⟩
  · rw [chain_update_next hex, chain_update_prev hex,
      chain_relink_prev (head?_ne_of_nodup_append hndxy)]
    exact hxs.relink_last hndx _
  · rw [chain_update_next hey, chain_update_prev hey,
      chain_relink_next (getLast?_ne_of_nodup_append hndxy)]
    exact hys.relink_head hndy _

/-- **Transposing** two neighbours: the six links between the node before, the two
nodes and the node after are rewritten. -/
theorem Chain.transpose {p e : E} (h : Chain next prev b (xs ++ p :: e :: ys) a)
    (hnd : (xs ++ p :: e :: ys).Nodup) :
    Chain (Function.update (Function.update (relink next xs.getLast? (some e)) e (some p)) p
        (ys.head?.or a))
      (Function.update (Function.update (relink prev ys.head? (some p)) p (some e)) e
        (xs.getLast?.or b)) b (xs ++ e :: p :: ys) a := by
  obtain ⟨hxs, -, -, -, -, hys⟩ := chain_append.mp h
  obtain ⟨hndx, hndpe, -⟩ := List.nodup_append.mp hnd
  obtain ⟨hpe, hnde⟩ := List.nodup_cons.mp hndpe
  obtain ⟨hey, hndy⟩ := List.nodup_cons.mp hnde
  have hpx : p ∉ xs := fun hmem => List.disjoint_of_nodup_append hnd hmem (by simp)
  have hex : e ∉ xs := fun hmem => List.disjoint_of_nodup_append hnd hmem (by simp)
  have hpy : p ∉ ys := fun hmem => hpe (List.mem_cons_of_mem _ hmem)
  have hne : e ≠ p := fun hep => hpe (hep ▸ List.mem_cons_self)
  have hndxy : (xs ++ ys).Nodup := hnd.sublist (by simp)
  refine chain_append.mpr ⟨?_, by simp, by simp [hne], by simp [hne.symm], by simp, ?_⟩
  · rw [chain_update_next hpx, chain_update_next hex, chain_update_prev hex,
      chain_update_prev hpx, chain_relink_prev (head?_ne_of_nodup_append hndxy)]
    exact hxs.relink_last hndx _
  · rw [chain_update_next hpy, chain_update_next hey, chain_update_prev hey,
      chain_update_prev hpy, chain_relink_next (getLast?_ne_of_nodup_append hndxy)]
    exact hys.relink_head hndy _

/-- **Exchanging** two nodes with others in between: each gets the neighbours of the other,
and the four nodes around them are redirected. -/
theorem Chain.exchange {p e m m' : E} (h : Chain next prev b (xs ++ p :: (ms ++ e :: ys)) a)
    (hnd : (xs ++ p :: (ms ++ e :: ys)).Nodup) (hm : ms.head? = some m)
    (hm' : ms.getLast? = some m') :
    Chain
      (relink (Function.update (Function.update (Function.update next p (ys.head?.or a)) e
        (some m)) m' (some p)) xs.getLast? (some e))
      (relink (Function.update (Function.update (Function.update prev p (some m')) e
        (xs.getLast?.or b)) m (some e)) ys.head? (some p)) b (xs ++ e :: (ms ++ p :: ys)) a := by
  obtain ⟨hxs, -, -, h⟩ := chain_append.mp h
  obtain ⟨hms, -, -, hys⟩ := chain_append.mp h
  have hmem : m ∈ ms := List.mem_of_mem_head? hm
  have hmem' : m' ∈ ms := List.mem_of_getLast? hm'
  obtain ⟨hndx, hndp, hdisx⟩ := List.nodup_append'.mp hnd
  obtain ⟨hp, hndm⟩ := List.nodup_cons.mp hndp
  obtain ⟨hndm, hnde, hdism⟩ := List.nodup_append'.mp hndm
  obtain ⟨hey, hndy⟩ := List.nodup_cons.mp hnde
  rw [List.mem_append, List.mem_cons] at hp
  push Not at hp
  obtain ⟨hpm, hpe, hpy⟩ := hp
  have hem : e ∉ ms := fun hmem => hdism hmem List.mem_cons_self
  -- who is where: a node of one stretch is none of the others
  have hx : ∀ x ∈ xs, x ≠ p ∧ x ≠ e ∧ x ∉ ms ∧ x ∉ ys := fun x hmem => by
    have hout : x ∉ p :: (ms ++ e :: ys) := fun h => hdisx hmem h
    simpa only [List.mem_cons, List.mem_append, not_or, and_assoc, and_left_comm] using hout
  have hin : ∀ x ∈ ms, x ≠ p ∧ x ≠ e ∧ x ∉ ys := fun x hmem =>
    ⟨ne_of_mem_of_not_mem hmem hpm, ne_of_mem_of_not_mem hmem hem,
      fun h => hdism hmem (List.mem_cons_of_mem _ h)⟩
  have hlast : ∀ x, x ∉ xs → xs.getLast? ≠ some x := fun x hx h => hx (List.mem_of_getLast? h)
  have hhead : ∀ x, x ∉ ys → ys.head? ≠ some x := fun x hx h => hx (List.mem_of_mem_head? h)
  have hex : e ∉ xs := fun hmem => (hx e hmem).2.1 rfl
  have hpx : p ∉ xs := fun hmem => (hx p hmem).1 rfl
  refine chain_append.mpr ⟨?_, ?_, ?_, chain_append.mpr ⟨?_, ?_, ?_, ?_⟩⟩
  · refine (chain_congr fun x hmemx => ?_).mpr (hxs.relink_last hndx (some e))
    obtain ⟨hxp, hxe, hxm, hxy⟩ := hx x hmemx
    refine ⟨relink_congr ?_, (relink_of_ne (hhead x hxy)).trans ?_⟩
    · simp [hxp, hxe, (ne_of_mem_of_not_mem hmem' hxm).symm]
    · simp [hxp, hxe, (ne_of_mem_of_not_mem hmem hxm).symm]
  · refine (relink_of_ne (hhead e hey)).trans ?_
    simp [(ne_of_mem_of_not_mem hmem hem).symm]
  · refine (relink_of_ne (hlast e hex)).trans ?_
    simp [(ne_of_mem_of_not_mem hmem' hem).symm, hm]
  · have hms' := (hms.relink_last hndm (some p)).relink_head hndm (some e)
    rw [hm, hm'] at hms'
    refine (chain_congr fun x hmemx => ?_).mpr hms'
    obtain ⟨hxp, hxe, hxy⟩ := hin x hmemx
    have hxx : x ∉ xs := fun h => (hx x h).2.2.1 hmemx
    refine ⟨(relink_of_ne (hlast x hxx)).trans ?_, (relink_of_ne (hhead x hxy)).trans ?_⟩
    · simp [Function.update_apply, hxp, hxe]
    · simp [Function.update_apply, hxp, hxe]
  · refine (relink_of_ne (hhead p hpy)).trans ?_
    simp [(ne_of_mem_of_not_mem hmem hpm).symm, hpe, hm']
  · refine (relink_of_ne (hlast p hpx)).trans ?_
    simp [(ne_of_mem_of_not_mem hmem' hpm).symm, hpe]
  · refine (chain_congr fun x hmemx => ?_).mpr (hys.relink_head hndy (some p))
    have hxp : x ≠ p := ne_of_mem_of_not_mem hmemx hpy
    have hxe : x ≠ e := ne_of_mem_of_not_mem hmemx hey
    have hxm : x ∉ ms := fun h => (hin x h).2.2 hmemx
    have hxx : x ∉ xs := fun h => (hx x h).2.2.2 hmemx
    refine ⟨(relink_of_ne (hlast x hxx)).trans ?_, relink_congr ?_⟩
    · simp [hxp, hxe, (ne_of_mem_of_not_mem hmem' hxm).symm]
    · simp [hxp, hxe, (ne_of_mem_of_not_mem hmem hxm).symm]
end Edits

end Links
