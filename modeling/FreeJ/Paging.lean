import Mathlib.Algebra.BigOperators.Group.List.Basic
import Mathlib.Algebra.Ring.Nat

/-!
# Streams of Packets and Pages

Packets are put into a stream, and pages are taken out of it: by `pageout` when there is enough
for one, by `flush` in any case. A page knows the stream it is from, whether it is the first or
the last one of it, and how many packets end on it. What packets and pages are made of is left
open, and so is when there is enough for a page.

Pages of several streams may be in one list, from which `demux` picks those of one stream.

## Main results

* `Paging.pageouts_some`, `Paging.pageout_pageouts`: taking pages until there are no more.
* `Paging.History.trans`: what is known of a stream after some operations and then others.
-/

namespace FreeJ

/-- What is to be seen of streams and pages. -/
structure PageView (S G K : Type*) where
  /-- how much is in the stream and on no page yet -/
  fill : S → ℕ
  /-- the packets in the stream whose end is on no page yet -/
  waiting : S → ℕ
  serialno : S → K
  /-- a page has been taken -/
  begun : S → Bool
  /-- a last packet has been put in -/
  ended : S → Bool
  /-- the packets that end on the page -/
  packets : G → ℕ
  page_serialno : G → K
  bos : G → Bool
  eos : G → Bool

variable {S P G K : Type*}

/-- A page that is taken from a stream, and the stream after that. -/
structure PageView.Took (V : PageView S G K) (s : S) (g : G) (s' : S) : Prop where
  fill : V.fill s' < V.fill s
  waiting : V.waiting s = V.packets g + V.waiting s'
  serialno : V.serialno s' = V.serialno s
  page_serialno : V.page_serialno g = V.serialno s
  begun : V.begun s' = true
  bos : V.bos g = !V.begun s
  ended : V.ended s' = V.ended s
  eos : V.eos g = true → V.ended s = true

/-- Streams with their operations. -/
structure Paging (S P G K : Type*) extends PageView S G K where
  packetin : S → P → S
  pageout : S → Option (G × S)
  flush : S → Option (G × S)
  /-- the packet is the last one of its stream -/
  last : P → Bool
  waiting_packetin : ∀ s p, waiting (packetin s p) = waiting s + 1
  serialno_packetin : ∀ s p, serialno (packetin s p) = serialno s
  begun_packetin : ∀ s p, begun (packetin s p) = begun s
  ended_packetin : ∀ s p, ended (packetin s p) = (ended s || last p)
  pageout_took : ∀ s g s', pageout s = some (g, s') → toPageView.Took s g s'
  flush_took : ∀ s g s', flush s = some (g, s') → toPageView.Took s g s'
  /-- after the last page everything is on pages -/
  flush_none : ∀ s, flush s = none → fill s = 0
  /-- the first page does not have to wait for more packets -/
  pageout_first : ∀ s, begun s = false → fill s ≠ 0 → pageout s ≠ none
  waiting_le : ∀ s, waiting s ≤ fill s

/-- Take no more than `n` pages. -/
def drain (next : S → Option (G × S)) : ℕ → S → List G × S
  | 0, s => ([], s)
  | n + 1, s =>
    match next s with
    | none => ([], s)
    | some (g, s') => (g :: (drain next n s').1, (drain next n s').2)

namespace Paging

variable (L : Paging S P G K)

/-- Take all pages for which there is enough. -/
def pageouts (s : S) : List G × S := drain L.pageout (L.fill s) s

/-- Take all pages. -/
def flushes (s : S) : List G × S := drain L.flush (L.fill s) s

/-- Put packets in and take all pages for which there is enough, again and again. -/
def feed (s : S) : List (List P) → List G × S
  | [] => ([], s)
  | ps :: rest =>
    ((pageouts L (ps.foldl L.packetin s)).1 ++ (feed (pageouts L (ps.foldl L.packetin s)).2 rest).1,
      (feed (pageouts L (ps.foldl L.packetin s)).2 rest).2)

/-- The pages of one stream. -/
def demux [DecidableEq K] (k : K) (pages : List G) : List G :=
  pages.filter fun g => L.page_serialno g = k

/-- What is known of a stream into which packets were put and from which pages were taken. -/
structure History (s : S) (ps : List P) (gs : List G) (s' : S) : Prop where
  waiting : L.waiting s + ps.length = (gs.map L.packets).sum + L.waiting s'
  serialno : L.serialno s' = L.serialno s
  pages : ∀ g ∈ gs, L.page_serialno g = L.serialno s
  begun : L.begun s' = (L.begun s || !gs.isEmpty)
  bos_head : ∀ g ∈ gs.head?, L.bos g = !L.begun s
  bos_tail : ∀ g ∈ gs.tail, L.bos g = false
  ended : L.ended s' = (L.ended s || ps.any L.last)
  eos : ∀ g ∈ gs, L.eos g = true → L.ended s' = true

variable {L} {s s' s'' : S} {g : G} {p : P} {ps ps' : List P} {gs gs' : List G} {n : ℕ}

/-! ### Histories -/

theorem History.refl (L : Paging S P G K) (s : S) : L.History s [] [] s where
  waiting := by simp
  serialno := rfl
  pages := by simp
  begun := by simp
  bos_head := by simp
  bos_tail := by simp
  ended := by simp
  eos := by simp

theorem History.packetin (L : Paging S P G K) (s : S) (p : P) :
    L.History s [p] [] (L.packetin s p) where
  waiting := by simp [L.waiting_packetin]
  serialno := L.serialno_packetin s p
  pages := by simp
  begun := by simp [L.begun_packetin]
  bos_head := by simp
  bos_tail := by simp
  ended := by simp [L.ended_packetin]
  eos := by simp

theorem History.took (h : L.Took s g s') : L.History s [] [g] s' where
  waiting := by simp [h.waiting]
  serialno := h.serialno
  pages := by simp [h.page_serialno]
  begun := by simp [h.begun]
  bos_head := by simp [h.bos]
  bos_tail := by simp
  ended := by simp [h.ended]
  eos := by simpa [h.ended] using h.eos

/-- What was done first and what was done then. -/
theorem History.trans (h : L.History s ps gs s') (h' : L.History s' ps' gs' s'') :
    L.History s (ps ++ ps') (gs ++ gs') s'' where
  waiting := by
    have hfirst := h.waiting
    have hthen := h'.waiting
    rw [List.length_append, List.map_append, List.sum_append]
    omega
  serialno := h'.serialno.trans h.serialno
  pages := by
    intro g hg
    rcases List.mem_append.mp hg with hg | hg
    · exact h.pages g hg
    · exact (h'.pages g hg).trans h.serialno
  begun := by
    rw [h'.begun, h.begun]
    cases gs <;> simp
  bos_head := by
    cases gs with
    | nil =>
        have hbegun : L.begun s' = L.begun s := by simpa using h.begun
        simpa only [List.nil_append, hbegun] using h'.bos_head
    | cons g gs => simpa using h.bos_head
  bos_tail := by
    cases gs with
    | nil => simpa using h'.bos_tail
    | cons g gs =>
        -- the stream has begun, so that the first page of the second part is no first page
        have hbegun : L.begun s' = true := by simpa using h.begun
        intro g' hg'
        rcases List.mem_append.mp hg' with hg' | hg'
        · exact h.bos_tail g' hg'
        · cases gs' with
          | nil => exact absurd hg' List.not_mem_nil
          | cons g₁ gs₁ =>
              rcases List.mem_cons.mp hg' with rfl | hg'
              · simpa [hbegun] using h'.bos_head g'
              · exact h'.bos_tail g' hg'
  ended := by rw [h'.ended, h.ended, List.any_append, Bool.or_assoc]
  eos := by
    intro g hg heos
    rcases List.mem_append.mp hg with hg | hg
    · rw [h'.ended, h.eos g hg heos, Bool.true_or]
    · exact h'.eos g hg heos

/-- Without a last packet there is no last page. -/
theorem History.eos_false (h : L.History s ps gs s') (hended : L.ended s = false)
    (hps : ∀ p ∈ ps, L.last p = false) : ∀ g ∈ gs, L.eos g = false := by
  intro g hg
  have hany : ps.any L.last = false := by simpa using hps
  by_contra heos
  have htrue := h.eos g hg (by simpa using heos)
  rw [h.ended, hended, hany] at htrue
  exact Bool.false_ne_true htrue

/-- The packets that are put in one after the other. -/
theorem History.packetins (L : Paging S P G K) (s : S) (ps : List P) :
    L.History s ps [] (ps.foldl L.packetin s) := by
  induction ps generalizing s with
  | nil => exact .refl L s
  | cons p ps ih => exact (History.packetin L s p).trans (ih (L.packetin s p))

/-! ### Taking all pages -/

/-- More than enough is enough. -/
theorem drain_of_le {next : S → Option (G × S)}
    (hnext : ∀ s g s', next s = some (g, s') → L.fill s' < L.fill s) (h : L.fill s ≤ n) :
    drain next n s = drain next (L.fill s) s := by
  induction n using Nat.strongRecOn generalizing s with
  | ind n ih =>
      cases hs : next s with
      | none =>
          cases n <;> cases L.fill s <;> simp [drain, hs]
      | some r =>
          obtain ⟨g, s'⟩ := r
          have hlt := hnext s g s' hs
          obtain ⟨m, rfl⟩ : ∃ m, n = m + 1 := ⟨n - 1, by omega⟩
          obtain ⟨k, hk⟩ : ∃ k, L.fill s = k + 1 := ⟨L.fill s - 1, by omega⟩
          rw [hk]
          simp only [drain, hs]
          rw [ih m (by omega) (by omega), ih k (by omega) (by omega)]

theorem drain_none {next : S → Option (G × S)} (hs : next s = none) :
    drain next n s = ([], s) := by
  cases n <;> simp [drain, hs]

theorem drain_some {next : S → Option (G × S)}
    (hnext : ∀ s g s', next s = some (g, s') → L.fill s' < L.fill s)
    (hs : next s = some (g, s')) :
    drain next (L.fill s) s =
      (g :: (drain next (L.fill s') s').1, (drain next (L.fill s') s').2) := by
  have hlt := hnext s g s' hs
  obtain ⟨k, hk⟩ : ∃ k, L.fill s = k + 1 := ⟨L.fill s - 1, by omega⟩
  rw [hk]
  simp only [drain, hs]
  rw [drain_of_le (L := L) (n := k) hnext (by omega)]

/-- After the last page there is none. -/
theorem next_drain {next : S → Option (G × S)}
    (hnext : ∀ s g s', next s = some (g, s') → L.fill s' < L.fill s) (s : S) :
    next (drain next (L.fill s) s).2 = none := by
  induction hn : L.fill s using Nat.strongRecOn generalizing s with
  | ind n ih =>
      rw [← hn]
      cases hs : next s with
      | none => rw [drain_none hs, hs]
      | some r =>
          obtain ⟨g, s'⟩ := r
          rw [drain_some hnext hs]
          exact ih _ (hn ▸ hnext s g s' hs) s' rfl

theorem History.drain {next : S → Option (G × S)}
    (hnext : ∀ s g s', next s = some (g, s') → L.Took s g s') (n : ℕ) (s : S) :
    L.History s [] (drain next n s).1 (drain next n s).2 := by
  induction n generalizing s with
  | zero => exact .refl L s
  | succ n ih =>
      simp only [FreeJ.drain]
      cases hs : next s with
      | none => exact .refl L s
      | some r => exact (History.took (hnext s r.1 r.2 hs)).trans (ih r.2)

theorem pageouts_none (hs : L.pageout s = none) : L.pageouts s = ([], s) := drain_none hs

theorem pageouts_some (hs : L.pageout s = some (g, s')) :
    L.pageouts s = (g :: (L.pageouts s').1, (L.pageouts s').2) :=
  drain_some (fun s g s' h => (L.pageout_took s g s' h).fill) hs

/-- When all pages are taken there is not enough for another one. -/
theorem pageout_pageouts (L : Paging S P G K) (s : S) : L.pageout (L.pageouts s).2 = none :=
  next_drain (fun s g s' h => (L.pageout_took s g s' h).fill) s

theorem flush_flushes (L : Paging S P G K) (s : S) : L.flush (L.flushes s).2 = none :=
  next_drain (fun s g s' h => (L.flush_took s g s' h).fill) s

/-- Nothing is left after a flush of everything. -/
theorem fill_flushes (L : Paging S P G K) (s : S) : L.fill (L.flushes s).2 = 0 :=
  L.flush_none _ (L.flush_flushes s)

/-- There is no page without content. -/
theorem pageout_of_fill (hs : L.fill s = 0) : L.pageout s = none := by
  cases h : L.pageout s with
  | none => rfl
  | some r =>
      have hlt := (L.pageout_took s r.1 r.2 h).fill
      omega

/-- A packet that was put in is there. -/
theorem fill_packetin (L : Paging S P G K) (s : S) (p : P) : L.fill (L.packetin s p) ≠ 0 := by
  have hwait := L.waiting_packetin s p
  have hle := L.waiting_le (L.packetin s p)
  omega

/-- A flush after a packet gives a page. -/
theorem exists_flush_packetin (L : Paging S P G K) (s : S) (p : P) :
    ∃ g s', L.flush (L.packetin s p) = some (g, s') := by
  cases h : L.flush (L.packetin s p) with
  | none => exact absurd (L.flush_none _ h) (L.fill_packetin s p)
  | some r => exact ⟨r.1, r.2, rfl⟩

/-- The first packet gives the first page. -/
theorem exists_pageout_packetin (hs : L.begun s = false) (p : P) :
    ∃ g s', L.pageout (L.packetin s p) = some (g, s') := by
  cases h : L.pageout (L.packetin s p) with
  | none =>
      exact absurd h (L.pageout_first _ ((L.begun_packetin s p).trans hs) (L.fill_packetin s p))
  | some r => exact ⟨r.1, r.2, rfl⟩

/-- The first packet is flushed onto at least one page. -/
theorem flushes_packetin_ne_nil (L : Paging S P G K) (s : S) (p : P) :
    (L.flushes (L.packetin s p)).1 ≠ [] := by
  obtain ⟨g, s', h⟩ := L.exists_flush_packetin s p
  rw [flushes, drain_some (fun s g s' h => (L.flush_took s g s' h).fill) h]
  exact List.cons_ne_nil _ _

theorem History.pageouts (L : Paging S P G K) (s : S) :
    L.History s [] (L.pageouts s).1 (L.pageouts s).2 :=
  .drain L.pageout_took _ s

theorem History.flushes (L : Paging S P G K) (s : S) :
    L.History s [] (L.flushes s).1 (L.flushes s).2 :=
  .drain L.flush_took _ s

theorem History.feed (L : Paging S P G K) (s : S) (pss : List (List P)) :
    L.History s pss.flatten (L.feed s pss).1 (L.feed s pss).2 := by
  induction pss generalizing s with
  | nil => exact .refl L s
  | cons ps pss ih =>
      have hin := History.packetins L s ps
      have hout := History.pageouts L (ps.foldl L.packetin s)
      have hboth := (hin.trans hout).trans (ih _)
      simpa [Paging.feed] using hboth

/-! ### One stream among others -/

section Demux

variable [DecidableEq K] {k : K}

@[simp]
theorem demux_append : L.demux k (gs ++ gs') = L.demux k gs ++ L.demux k gs' :=
  List.filter_append ..

@[simp]
theorem demux_nil : L.demux k ([] : List G) = [] := rfl

/-- The pages of the stream are picked. -/
theorem demux_eq_self (h : ∀ g ∈ gs, L.page_serialno g = k) : L.demux k gs = gs :=
  List.filter_eq_self.mpr fun g hg => decide_eq_true (h g hg)

/-- The pages of other streams are not. -/
theorem demux_eq_nil (h : ∀ g ∈ gs, L.page_serialno g ≠ k) : L.demux k gs = [] :=
  List.filter_eq_nil_iff.mpr fun g hg => by simpa using h g hg

end Demux

end Paging

end FreeJ
