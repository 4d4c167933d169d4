import FreeJ.CString
import FreeJ.LinklistPositions

/-!
# Completion

`Linklist::completion` searches a list backward for the entries whose name starts with a needle
and stores them in `compbuf`, a member of the list that every call uses again. `compbuf` has
`MAX_COMPLETION*sizeof(T*)` slots; as many bytes of it are cleared before a search, which are
`MAX_COMPLETION` slots, and nothing bounds the number of hits.

The constructor leaves `compbuf` as the memory was. A write behind it has no result.

## Main results

* `Linklist.completion_eq`: what is in `compbuf` after a call.
* `completion_exact_iff`: when the result, read up to its first null pointer, is the matches.
-/

namespace FreeJ

open Function (update)
open Links

/-- `MAX_COMPLETION` -/
def MAX_COMPLETION : ℕ := 512

/-- `sizeof(T*)` -/
def SIZEOF_PTR : ℕ := 8

/-- `Linklist::compbuf` -/
abbrev Compbuf (E : Type*) := Fin (MAX_COMPLETION * SIZEOF_PTR) → Option E

/-- `strncasecmp(needle, name, strlen(needle))` returns 0. -/
def CString.startsNoCase (needle name : CString) : Bool :=
  (needle.chars.map CString.tolower).isPrefixOf (name.chars.map CString.tolower)

variable {E L : Type*}

/-- `memset(compbuf, 0, bytes)` -/
def Compbuf.memset (compbuf : Compbuf E) (bytes : ℕ) : Compbuf E :=
  fun i => if i < bytes / SIZEOF_PTR then none else compbuf i

/-- `compbuf[found] = ptr` -/
def Compbuf.set (compbuf : Compbuf E) (found : ℕ) (ptr : E) : Option (Compbuf E) :=
  if h : found < MAX_COMPLETION * SIZEOF_PTR then some (update compbuf ⟨found, h⟩ (some ptr))
  else none

/-- The loop of `Linklist::completion`. -/
def Linklist.completionFrom (h : Heap E L) (names : E → CString) (needle : CString) :
    ℕ → Option E → ℕ → Compbuf E → Option (Compbuf E)
  | _, none, _, compbuf => some compbuf
  | 0, some _, _, _ => none
  | k + 1, some ptr, found, compbuf =>
    if needle.strlen = 0 then -- 0 length needle: return the full list
      (compbuf.set found ptr).bind fun compbuf =>
        Linklist.completionFrom h names needle k (h.prev ptr) (found + 1) compbuf
    else if needle.startsNoCase (names ptr) then
      (compbuf.set found ptr).bind fun compbuf =>
        Linklist.completionFrom h names needle k (h.prev ptr) (found + 1) compbuf
    else Linklist.completionFrom h names needle k (h.prev ptr) found compbuf

/-- `Linklist::completion`: the buffer that it returns. -/
def Linklist.completion (h : Heap E L) (names : E → CString) (l : L) (needle : CString)
    (compbuf : Compbuf E) : Option (Compbuf E) :=
  let compbuf := compbuf.memset (MAX_COMPLETION * SIZEOF_PTR)
  match h.last l with
  | none => some compbuf
  | some ptr =>
    Linklist.completionFrom h names needle (h.length l).toNat (some ptr) 0 compbuf

/-- A call of `completion` on list `l`, with the entries of the list at that time. -/
structure CompletionCall (E : Type*) {L : Type*} (l : L) where
  heap : Heap E L
  names : E → CString
  needle : CString
  entries : List E
  linked : Linked heap l entries

/-- The entries whose name starts with the needle, from last to first. -/
def CompletionCall.matches {l : L} (call : CompletionCall E l) : List E :=
  call.entries.reverse.filter fun e => call.needle.startsNoCase (call.names e)

/-- `completion` -/
def CompletionCall.exec {l : L} (call : CompletionCall E l) (compbuf : Compbuf E) :
    Option (Compbuf E) :=
  Linklist.completion call.heap call.names l call.needle compbuf

/-- What a list of calls leaves in the buffer. -/
def Compbuf.after {l : L} (compbuf : Compbuf E) : List (CompletionCall E l) → Option (Compbuf E)
  | [] => some compbuf
  | call :: calls => (call.exec compbuf).bind fun compbuf => compbuf.after calls

/-- The buffer, read up to its first null pointer. -/
def Compbuf.ReadsAs (compbuf : Compbuf E) (es : List E) : Prop :=
  es.length < MAX_COMPLETION * SIZEOF_PTR ∧ ∀ i, i.val ≤ es.length → compbuf i = es[i.val]?

variable {h : Heap E L} {l : L} {names : E → CString} {needle : CString} {es xs : List E}
  {compbuf compbuf' : Compbuf E} {found n : ℕ}

/-! ### One call -/

theorem CString.startsNoCase_of_empty (hn : needle.strlen = 0) (name : CString) :
    needle.startsNoCase name = true := by
  have hnil : needle.chars = [] := List.length_eq_zero_iff.mp hn
  simp [CString.startsNoCase, hnil]

/-- Store entries in slot after slot. -/
def Compbuf.store (compbuf : Compbuf E) : ℕ → List E → Option (Compbuf E)
  | _, [] => some compbuf
  | found, e :: es => (compbuf.set found e).bind fun compbuf => compbuf.store (found + 1) es

/-- The loop stores the hits along a walk. -/
theorem Linklist.completionFrom_eq {p : Option E} {k : ℕ} (hw : Walk h.prev p xs)
    (hk : xs.length ≤ k) :
    Linklist.completionFrom h names needle k p found compbuf =
      compbuf.store found (xs.filter fun e => needle.startsNoCase (names e)) := by
  induction xs generalizing p k found compbuf with
  | nil =>
      obtain rfl : p = none := hw
      rw [Linklist.completionFrom]
      rfl
  | cons x xs ih =>
      obtain ⟨k, rfl⟩ : ∃ k', k = k' + 1 :=
        ⟨k - 1, by rw [List.length_cons] at hk; omega⟩
      have hkx : xs.length ≤ k := by simpa using hk
      rw [hw.1, Linklist.completionFrom]
      by_cases hn : needle.strlen = 0
      · rw [if_pos hn, List.filter_cons, if_pos (needle.startsNoCase_of_empty hn _)]
        exact Option.bind_congr fun b _ => ih hw.2 hkx
      · rw [if_neg hn]
        by_cases hx : needle.startsNoCase (names x) = true
        · rw [if_pos hx, List.filter_cons, if_pos hx]
          exact Option.bind_congr fun b _ => ih hw.2 hkx
        · rw [if_neg hx, List.filter_cons, if_neg hx]
          exact ih hw.2 hkx

/-- Storing succeeds if there are slots; those in front and behind stay. -/
theorem Compbuf.store_eq (hf : found ≤ MAX_COMPLETION * SIZEOF_PTR) :
    compbuf.store found es =
      if found + es.length ≤ MAX_COMPLETION * SIZEOF_PTR then
        some fun i => if found ≤ i.val ∧ i.val < found + es.length then es[i.val - found]?
          else compbuf i
      else none := by
  induction es generalizing found compbuf with
  | nil =>
      rw [Compbuf.store, List.length_nil, if_pos (by omega)]
      congr 1
      funext i
      rw [if_neg (by omega)]
  | cons e es ih =>
      rw [Compbuf.store, Compbuf.set, List.length_cons]
      split
      · rename_i hlt
        rw [Option.bind_some, ih (by omega)]
        have hlen : found + 1 + es.length = found + (es.length + 1) := by omega
        rw [hlen]
        split
        · congr 1
          funext i
          by_cases hi : i.val = found
          · have hfin : i = ⟨found, hlt⟩ := Fin.ext hi
            rw [if_neg (by omega), if_pos (by omega), hfin, Function.update_self, Nat.sub_self]
            rfl
          · by_cases hin : found + 1 ≤ i.val ∧ i.val < found + (es.length + 1)
            · obtain ⟨j, hj⟩ : ∃ j, i.val - found = j + 1 := ⟨i.val - found - 1, by omega⟩
              rw [if_pos hin, if_pos (by omega), hj, List.getElem?_cons_succ]
              congr 1
              omega
            · rw [if_neg hin, if_neg (by omega),
                Function.update_of_ne fun heq => hi (congrArg Fin.val heq)]
        · rfl
      · rw [Option.bind_none, if_neg (by omega)]

/-- **What is in the buffer after a call**, if there are slots for all the matches: these, then
null pointers in what was cleared, then what was there before. -/
theorem CompletionCall.exec_eq (call : CompletionCall E l) (compbuf : Compbuf E) :
    call.exec compbuf =
      if call.matches.length ≤ MAX_COMPLETION * SIZEOF_PTR then
        some fun i => if i.val < call.matches.length then call.matches[i.val]?
          else if i.val < MAX_COMPLETION then none else compbuf i
      else none := by
  have hwalk := call.linked.strand.walk_prev
  have hmemset : ∀ i, compbuf.memset (MAX_COMPLETION * SIZEOF_PTR) i =
      if i.val < MAX_COMPLETION then none else compbuf i := by
    intro i
    rw [Compbuf.memset, Nat.mul_div_cancel _ (by decide)]
  have hloop : call.exec compbuf =
      (compbuf.memset (MAX_COMPLETION * SIZEOF_PTR)).store 0 call.matches := by
    simp only [CompletionCall.exec, Linklist.completion, CompletionCall.matches]
    cases hlast : call.heap.last l with
    | none =>
        rw [hlast] at hwalk
        have hnil : call.entries.reverse = [] := by
          cases hr : call.entries.reverse with
          | nil => rfl
          | cons x xs =>
              rw [hr] at hwalk
              exact absurd hwalk.1 (by simp)
        rw [hnil]
        rfl
    | some ptr =>
        rw [hlast] at hwalk
        refine Linklist.completionFrom_eq hwalk ?_
        rw [call.linked.length, List.length_reverse, Int.toNat_natCast]
  rw [hloop, Compbuf.store_eq (Nat.zero_le _)]
  simp only [Nat.zero_add, Nat.zero_le, true_and, Nat.sub_zero, hmemset]

/-- The call returns the matches: no write is behind the buffer, and reading ends. -/
def CompletionCall.Exact (call : CompletionCall E l) (compbuf : Compbuf E) : Prop :=
  ∃ compbuf', call.exec compbuf = some compbuf' ∧ compbuf'.ReadsAs call.matches

/-- The matches are followed by a null pointer if what was cleared reaches further, or the slot
was empty. -/
theorem CompletionCall.exact_iff (call : CompletionCall E l) (compbuf : Compbuf E) :
    call.Exact compbuf ↔ call.matches.length < MAX_COMPLETION ∨
      ∃ i, i.val = call.matches.length ∧ compbuf i = none := by
  have hmax : MAX_COMPLETION ≤ MAX_COMPLETION * SIZEOF_PTR := by decide
  rw [CompletionCall.Exact, call.exec_eq]
  constructor
  · rintro ⟨compbuf', hexec, hlen, hread⟩
    rw [if_pos (by omega)] at hexec
    obtain rfl := Option.some.inj hexec
    have hat := hread ⟨call.matches.length, hlen⟩ (Nat.le_refl _)
    simp only [Nat.lt_irrefl, if_false, List.getElem?_length] at hat
    split at hat
    · exact Or.inl ‹_›
    · exact Or.inr ⟨_, rfl, hat⟩
  · intro h
    have hlen : call.matches.length < MAX_COMPLETION * SIZEOF_PTR := by
      obtain h | ⟨i, hi, -⟩ := h
      · omega
      · rw [← hi]
        exact i.isLt
    rw [if_pos (by omega)]
    refine ⟨_, rfl, hlen, fun i hi => ?_⟩
    by_cases hlt : i.val < call.matches.length
    · simp only [if_pos hlt]
    · have heq : i.val = call.matches.length := by omega
      simp only [heq, Nat.lt_irrefl, if_false, List.getElem?_length]
      obtain h | ⟨j, hj, hnull⟩ := h
      · rw [if_pos h]
      · have hij : i = j := Fin.ext (heq.trans hj.symm)
        split
        · rfl
        · rw [hij, hnull]

/-! ### Calls one after the other -/

/-- **What the calls leave behind**: a slot that is not cleared is written by the calls with
more matches. -/
theorem Compbuf.after_spec (calls : List (CompletionCall E l)) (compbuf : Compbuf E) :
    ((∃ compbuf', compbuf.after calls = some compbuf') ↔
        ∀ c ∈ calls, c.matches.length ≤ MAX_COMPLETION * SIZEOF_PTR) ∧
      ∀ compbuf', compbuf.after calls = some compbuf' → ∀ i, MAX_COMPLETION ≤ i.val →
        (compbuf' i = none ↔ compbuf i = none ∧ ∀ c ∈ calls, c.matches.length ≤ i.val) := by
  induction calls generalizing compbuf with
  | nil =>
      refine ⟨by simp [Compbuf.after], fun compbuf' h i _ => ?_⟩
      obtain rfl := Option.some.inj h
      simp
  | cons call calls ih =>
      rw [Compbuf.after, call.exec_eq]
      simp only [List.forall_mem_cons]
      by_cases hlen : call.matches.length ≤ MAX_COMPLETION * SIZEOF_PTR
      · rw [if_pos hlen, Option.bind_some]
        obtain ⟨hsome, hnull⟩ := ih fun i => if i.val < call.matches.length then
          call.matches[i.val]? else if i.val < MAX_COMPLETION then none else compbuf i
        refine ⟨hsome.trans (and_iff_right hlen).symm, fun compbuf' h i hi => ?_⟩
        rw [hnull compbuf' h i hi, if_neg (show ¬ i.val < MAX_COMPLETION by omega)]
        by_cases hlt : i.val < call.matches.length
        · rw [if_pos hlt, List.getElem?_eq_getElem hlt]
          refine iff_of_false (fun h => ?_) (fun h => ?_)
          · cases h.1
          · exact absurd h.2.1 (by omega)
        · rw [if_neg hlt]
          exact and_congr_right fun _ => (and_iff_right (by omega)).symm
      · rw [if_neg hlen, Option.bind_none]
        refine ⟨iff_of_false (by simp) fun h => hlen h.1, fun compbuf' h => ?_⟩
        cases h

/-- **When a call of `completion` returns exactly the matches**, whatever was asked before: the
earlier calls had slots for their matches, and this one has fewer matches than are cleared, or
none of them had more and the slot behind the matches was empty in the beginning. -/
theorem completion_exact_iff (calls : List (CompletionCall E l)) (call : CompletionCall E l)
    (compbuf : Compbuf E) :
    (∃ compbuf', compbuf.after calls = some compbuf' ∧ call.Exact compbuf') ↔
      (∀ c ∈ calls, c.matches.length ≤ MAX_COMPLETION * SIZEOF_PTR) ∧
        (call.matches.length < MAX_COMPLETION ∨
          (∃ i, i.val = call.matches.length ∧ compbuf i = none) ∧
            ∀ c ∈ calls, c.matches.length ≤ call.matches.length) := by
  obtain ⟨hsome, hnull⟩ := Compbuf.after_spec calls compbuf
  constructor
  · rintro ⟨compbuf', hafter, hexact⟩
    refine ⟨hsome.mp ⟨_, hafter⟩, ?_⟩
    by_cases hlt : call.matches.length < MAX_COMPLETION
    · exact Or.inl hlt
    · obtain ⟨i, hi, hnone⟩ := ((call.exact_iff _).mp hexact).resolve_left hlt
      obtain ⟨hempty, hcalls⟩ := (hnull compbuf' hafter i (by omega)).mp hnone
      exact Or.inr ⟨⟨i, hi, hempty⟩, fun c hc => hi ▸ hcalls c hc⟩
  · rintro ⟨hcalls, h⟩
    obtain ⟨compbuf', hafter⟩ := hsome.mpr hcalls
    refine ⟨compbuf', hafter, (call.exact_iff _).mpr ?_⟩
    by_cases hlt : call.matches.length < MAX_COMPLETION
    · exact Or.inl hlt
    · obtain ⟨⟨i, hi, hempty⟩, hle⟩ := h.resolve_left hlt
      refine Or.inr ⟨i, hi, (hnull compbuf' hafter i (by omega)).mpr ⟨hempty, ?_⟩⟩
      exact fun c hc => hi ▸ hle c hc

/-- The empty needle on a list of `n` entries. -/
def completeAll (n : ℕ) : CompletionCall ℕ () where
  heap := Linklist.ofList (List.range n)
  names _ := .literal []
  needle := .literal []
  entries := List.range n
  linked := Linklist.linked_ofList List.nodup_range

theorem length_completeAll (n : ℕ) : (completeAll n).matches.length = n := by
  have hall : ∀ name, CString.startsNoCase (.literal []) name = true := fun name =>
    CString.startsNoCase_of_empty rfl name
  simp [CompletionCall.matches, completeAll, hall]

/-- **Old hits.** A list of 513 entries is completed, and then, when only 512 are left, again:
behind these the result goes on with an entry from before. -/
theorem completion_stale :
    ∃ compbuf, Compbuf.after (fun _ => none) [completeAll 513] = some compbuf ∧
      ¬ (completeAll 512).Exact compbuf := by
  obtain ⟨hsome, hnull⟩ := Compbuf.after_spec [completeAll 513] fun _ => none
  obtain ⟨compbuf, hafter⟩ := hsome.mpr (by simp [length_completeAll, MAX_COMPLETION, SIZEOF_PTR])
  refine ⟨compbuf, hafter, fun hexact => ?_⟩
  rw [CompletionCall.exact_iff, length_completeAll] at hexact
  obtain ⟨i, hi, hnone⟩ := hexact.resolve_left (by decide)
  obtain ⟨-, hle⟩ := (hnull compbuf hafter i (by rw [hi]; decide)).mp hnone
  have h513 := hle (completeAll 513) (List.mem_singleton_self _)
  rw [length_completeAll] at h513
  omega

end FreeJ
