import Mathlib.Tactic.Ring
import FreeJ.ViMo

/-!
# The Inner Wheel

`ViMoController::dispatch`, the inner wheel. The wheel has four places, 3, 2, 0, 1 and 3 again
to the right, and locks on 3. The last four places are looked up in two tables, `wi_dir` is
counted up or down when one of them has these, and on the lock position it becomes 1 or -1 and
is reported.

`wheelDir` and `reports` say what becomes of `wi_dir` and of the directions reported in the
course of quarter turns. A list of quarter turns that have been made has the latest first.

The tables have what four places in a row make in one direction. Two of these may belong to the
turn before, so that a turn in the same direction counts at its start already, and one in the
other direction has `wi_dir` against it. Nothing asks whether there was a turn at all.

## Main results

* `ViMoController.matched_four`: four places match a table when the three quarter turns between
  them are alike.
* `ViMoController.AtLock.middle`: what `wi_dir` is in the middle of a lap, from one lock position
  to the next.
* `ViMoController.counts_iff`: when the directions reported sum up to the turns made.
* `inner_wheel_counts_iff`: the same of any packets that report the places one after the other.
* `inner_wheel_jitter`: one place to the right and back is reported as a turn to the left.
-/

namespace FreeJ

/-- A quarter turn of the wheel. -/
inductive Quarter
  | left
  | right
  deriving DecidableEq, Repr

namespace Quarter

/-- -1=left; 1=right -/
def dir : Quarter → ℤ
  | left => -1
  | right => 1

/-- The other way. -/
def back : Quarter → Quarter
  | left => right
  | right => left

/-- The place after a quarter turn, which is 3, 2, 0, 1 and 3 again to the right. -/
def next : Quarter → BitVec 2 → BitVec 2
  | right, p => (#v[1, 3, 0, 2] : Vector (BitVec 2) 4).get ⟨p.toNat, p.isLt⟩
  | left, p => (#v[2, 0, 3, 1] : Vector (BitVec 2) 4).get ⟨p.toNat, p.isLt⟩

end Quarter

/-- The quarter turn from one place to another, if it is one. -/
def quarter (p q : BitVec 2) : Option Quarter :=
  if q = Quarter.right.next p then some .right
  else if q = Quarter.left.next p then some .left
  else none

/-- Each packet reports the place before it, or one next to it. -/
def OnePlace : BitVec 2 → List ViMoData → Prop
  | _, [] => True
  | p, d :: ds => (d.i = p ∨ ∃ m : Quarter, d.i = m.next p) ∧ OnePlace d.i ds

/-- The quarter turns that packets report. -/
def moves : BitVec 2 → List ViMoData → List Quarter
  | _, [] => []
  | p, d :: ds => (quarter p d.i).toList ++ moves d.i ds

/-- The net number of quarter turns to the right. -/
def net (moves : List Quarter) : ℤ := (moves.map Quarter.dir).sum

/-- The place after quarter turns from the lock position, the latest first. -/
def placeAfter : List Quarter → BitVec 2
  | [] => 3
  | m :: past => m.next (placeAfter past)

namespace ViMoController

/-- The last four places in the history, after quarter turns, the latest first. -/
def window : List Quarter → ℕ
  | [] => 0
  | m :: past => (window past * 16 + (placeAfter (m :: past)).toNat) % 65536

/-- Which of the tables has the last four places, if any, the last being `i`. -/
def matched (i : BitVec 2) (places : ℕ) : ℤ :=
  if (wi_right.get ⟨i.toNat, i.isLt⟩).toNat = places then 1
  else if (wi_left.get ⟨i.toNat, i.isLt⟩).toNat = places then -1
  else 0

/-- `wi_dir` after quarter turns, the latest first. -/
def wheelDir : List Quarter → ℤ
  | [] => 0
  | m :: past =>
    let wi_dir := wheelDir past + matched (placeAfter (m :: past)) (window (m :: past))
    if placeAfter (m :: past) = 3 then if wi_dir > 0 then 1 else -1 else wi_dir

/-- The sum of the directions reported in the course of quarter turns, the latest first. -/
def reports : List Quarter → ℤ
  | [] => 0
  | m :: past => reports past + if placeAfter (m :: past) = 3 then wheelDir (m :: past) else 0

end ViMoController

/-- The direction that a call of `inner_wheel` reports. -/
def ViMoEvent.direction : ViMoEvent → ℤ
  | .inner_wheel direction _ => direction
  | _ => 0

/-- The sum of the directions reported by `inner_wheel`. -/
def ViMoController.reported (s : ViMoController) : ℤ := (s.events.map ViMoEvent.direction).sum

/-! ### Places -/

/-- The place after a net number of quarter turns to the right. -/
def placeAt (n : ℤ) : BitVec 2 :=
  if n % 4 = 0 then 3 else if n % 4 = 1 then 2 else if n % 4 = 2 then 0 else 1

@[simp] theorem net_nil : net [] = 0 := rfl

@[simp] theorem net_cons (m : Quarter) (past : List Quarter) :
    net (m :: past) = m.dir + net past := List.sum_cons

@[simp] theorem net_append (lap before : List Quarter) :
    net (lap ++ before) = net lap + net before := by
  simp [net]

@[simp] theorem net_reverse (past : List Quarter) : net past.reverse = net past := by
  simp [net, List.sum_reverse]

@[simp] theorem Quarter.dir_back (m : Quarter) : m.back.dir = -m.dir := by
  cases m <;> rfl

theorem Quarter.eq_or_back (e m : Quarter) : m = e ∨ m = e.back := by
  cases e <;> cases m <;> decide

theorem Quarter.back_ne (m : Quarter) : m.back ≠ m := by
  cases m <;> decide

theorem Quarter.next_ne (m : Quarter) (p : BitVec 2) : m.next p ≠ p := by
  revert p
  cases m <;> decide

/-- The quarter turn to the next place is found. -/
theorem quarter_next (m : Quarter) (p : BitVec 2) : quarter p (m.next p) = some m := by
  revert p
  cases m <;> decide

/-- There is none to the same place. -/
theorem quarter_self (p : BitVec 2) : quarter p p = none := by
  revert p
  decide

/-- A quarter turn from a place in the cycle. -/
theorem next_placeAt (m : Quarter) (n : ℤ) : m.next (placeAt n) = placeAt (m.dir + n) := by
  have hn : n % 4 = 0 ∨ n % 4 = 1 ∨ n % 4 = 2 ∨ n % 4 = 3 := by omega
  cases m with
  | left =>
      have hd : (Quarter.left.dir + n) % 4 = (n % 4 + 3) % 4 := by
        change (-1 + n) % 4 = _
        omega
      rw [placeAt, placeAt, hd]
      rcases hn with hn | hn | hn | hn <;> rw [hn] <;> rfl
  | right =>
      have hd : (Quarter.right.dir + n) % 4 = (n % 4 + 1) % 4 := by
        change (1 + n) % 4 = _
        omega
      rw [placeAt, placeAt, hd]
      rcases hn with hn | hn | hn | hn <;> rw [hn] <;> rfl

/-- Where the wheel is depends on the net number of quarter turns. -/
theorem placeAfter_eq (past : List Quarter) : placeAfter past = placeAt (net past) := by
  induction past with
  | nil => rfl
  | cons m past ih => rw [placeAfter, ih, next_placeAt, net_cons]

/-- The wheel is on the lock position after full turns. -/
theorem placeAfter_eq_three (past : List Quarter) : placeAfter past = 3 ↔ 4 ∣ net past := by
  have hn : net past % 4 = 0 ∨ net past % 4 = 1 ∨ net past % 4 = 2 ∨ net past % 4 = 3 := by omega
  rw [placeAfter_eq, placeAt, Int.dvd_iff_emod_eq_zero]
  rcases hn with hn | hn | hn | hn <;> rw [hn] <;> decide

/-- So do the first of the packets. -/
theorem OnePlace.take {p : BitVec 2} {ds : List ViMoData} (h : OnePlace p ds) (n : ℕ) :
    OnePlace p (ds.take n) := by
  induction ds generalizing p n with
  | nil => simp [OnePlace]
  | cons d ds ih =>
      cases n with
      | zero => exact trivial
      | succ n => exact ⟨h.1, ih h.2 n⟩

namespace ViMoController

/-! ### The window -/

/-- The last four digits of the history after another place. -/
theorem hist_step (hist : BitVec 32) (i : BitVec 2) :
    (hist <<< 4 ||| i.setWidth 32).toNat % 65536 =
      (hist.toNat % 65536 * 16 + i.toNat) % 65536 := by
  have hi : i.toNat < 2 ^ 4 := lt_of_lt_of_le i.isLt (by decide)
  have hshift : hist.toNat <<< 4 % 2 ^ 32 = (hist.toNat % 2 ^ 28) <<< 4 := by
    rw [Nat.shiftLeft_eq, Nat.shiftLeft_eq]
    omega
  rw [BitVec.toNat_or, BitVec.toNat_shiftLeft, BitVec.toNat_setWidth,
    Nat.mod_eq_of_lt (lt_of_lt_of_le hi (by decide)), hshift,
    ← Nat.shiftLeft_add_eq_or_of_lt hi, Nat.shiftLeft_eq]
  omega

/-- The mask keeps the last four digits. -/
theorem and_mask (hist : BitVec 32) : (hist &&& 0xffff).toNat = hist.toNat % 65536 := by
  rw [BitVec.toNat_and]
  exact Nat.and_two_pow_sub_one_eq_mod hist.toNat 16

/-- The window after three quarter turns and the one before. -/
theorem window_four (a b c d : Quarter) (rest : List Quarter) :
    window (a :: b :: c :: d :: rest) =
      (placeAfter (d :: rest)).toNat * 4096 + (placeAfter (c :: d :: rest)).toNat * 256 +
        (placeAfter (b :: c :: d :: rest)).toNat * 16 +
        (placeAfter (a :: b :: c :: d :: rest)).toNat := by
  have := (placeAfter (d :: rest)).isLt
  have := (placeAfter (c :: d :: rest)).isLt
  have := (placeAfter (b :: c :: d :: rest)).isLt
  have := (placeAfter (a :: b :: c :: d :: rest)).isLt
  simp only [window]
  omega

/-- A table has four places when the three quarter turns between them are alike. -/
theorem matched_turns (a b c : Quarter) (p : BitVec 2) :
    matched (a.next (b.next (c.next p)))
        (p.toNat * 4096 + (c.next p).toNat * 256 + (b.next (c.next p)).toNat * 16 +
          (a.next (b.next (c.next p))).toNat) =
      if a = b ∧ b = c then a.dir else 0 := by
  revert p
  cases a <;> cases b <;> cases c <;> decide

/-- **What the tables match**: three quarter turns alike. -/
theorem matched_four (a b c d : Quarter) (rest : List Quarter) :
    matched (placeAfter (a :: b :: c :: d :: rest)) (window (a :: b :: c :: d :: rest)) =
      if a = b ∧ b = c then a.dir else 0 := by
  rw [window_four]
  exact matched_turns a b c (placeAfter (d :: rest))

/-! ### Laps -/

/-- A lap, the latest turn first, ends with three quarter turns that way. -/
def Ends (m : Quarter) (lap : List Quarter) : Prop := [m, m, m] <+: lap

/-- A lap, the latest turn first, starts with three quarter turns that way. -/
def Starts (m : Quarter) (lap : List Quarter) : Prop := [m, m, m] <:+ lap

instance (m : Quarter) (lap : List Quarter) : Decidable (Ends m lap) :=
  inferInstanceAs (Decidable ([m, m, m] <+: lap))

instance (m : Quarter) (lap : List Quarter) : Decidable (Starts m lap) :=
  inferInstanceAs (Decidable ([m, m, m] <:+ lap))

/-- When a lap from one lock position to the next, the latest turn first, is a full turn that
is reported as one, given the full turn before it. -/
def LapOk (turned : Option Quarter) (lap : List Quarter) : Prop :=
  net lap = 4 ∧ (turned = some .right ∨
      Ends .right lap ∧ (turned = none ∨ Starts .right lap)) ∨
    net lap = -4 ∧ (turned ≠ some .right ∨ Starts .left lap ∨ Ends .left lap)

instance (turned : Option Quarter) (lap : List Quarter) : Decidable (LapOk turned lap) :=
  inferInstanceAs (Decidable (_ ∨ _))

/-- All the laps that the quarter turns complete are so, given the full turn before them and
what there is of the first lap, the latest turn first. -/
def LapsOk : Option Quarter → List Quarter → List Quarter → Prop
  | _, _, [] => True
  | turned, lap, m :: ms =>
    if 4 ∣ net (m :: lap) then LapOk turned (m :: lap) ∧ LapsOk (some m) [] ms
    else LapsOk turned (m :: lap) ms

instance LapsOk.decidable : (turned : Option Quarter) → (lap ms : List Quarter) →
    Decidable (LapsOk turned lap ms)
  | _, _, [] => isTrue trivial
  | turned, lap, m :: ms =>
    have := LapsOk.decidable (some m) [] ms
    have := LapsOk.decidable turned (m :: lap) ms
    inferInstanceAs (Decidable (if 4 ∣ net (m :: lap)
      then LapOk turned (m :: lap) ∧ LapsOk (some m) [] ms else LapsOk turned (m :: lap) ms))

/-- A lap that is `o` quarter turns to one side, the latest first, and has not been back. -/
inductive InLap (e : Quarter) : ℕ → List Quarter → Prop
  | start : InLap e 1 [e]
  | forth {o : ℕ} {lap : List Quarter} : InLap e o lap → o + 1 ≤ 3 → InLap e (o + 1) (e :: lap)
  | back {o : ℕ} {lap : List Quarter} : InLap e (o + 1) lap → 1 ≤ o → InLap e o (e.back :: lap)

namespace InLap

variable {e : Quarter} {o : ℕ} {lap : List Quarter}

/-- In the middle of a lap the wheel is one to three quarter turns away. -/
theorem bounds (h : InLap e o lap) : 1 ≤ o ∧ o ≤ 3 := by
  induction h with
  | start => exact ⟨le_refl 1, by decide⟩
  | forth h ho ih => exact ⟨by omega, ho⟩
  | back h ho ih => exact ⟨ho, by omega⟩

theorem net_eq (h : InLap e o lap) : net lap = e.dir * o := by
  induction h with
  | start => cases e <;> rfl
  | forth h ho ih =>
      rw [net_cons, ih]
      push_cast
      ring
  | back h ho ih =>
      rw [net_cons, ih, Quarter.dir_back]
      push_cast
      ring

/-- On the lock position again, after a full turn. -/
theorem net_turn (h : InLap e 3 lap) : net (e :: lap) = 4 * e.dir := by
  rw [net_cons, h.net_eq]
  push_cast
  ring

/-- On the lock position again, the way it went. -/
theorem net_return (h : InLap e 1 lap) : net (e.back :: lap) = 0 := by
  rw [net_cons, h.net_eq, Quarter.dir_back]
  push_cast
  ring

/-- In the middle of a lap the wheel is not on a lock position. -/
theorem not_dvd (h : InLap e o lap) : ¬ 4 ∣ net lap := by
  obtain ⟨h1, h3⟩ := h.bounds
  rw [h.net_eq]
  cases e <;> simp only [Quarter.dir] <;> omega

/-- The last two quarter turns tell how far a lap is: it is three to its side after two that
way, and one after two back. -/
theorem shape (h : InLap e o lap) :
    lap = [e] ∧ o = 1 ∨ lap = [e, e] ∧ o = 2 ∨
      ∃ x y z rest, lap = x :: y :: z :: rest ∧
        (x = e ∧ 2 ≤ o ∧ (y = e → o = 3) ∨ x = e.back ∧ o ≤ 2 ∧ (y = e.back → o = 1)) := by
  induction h with
  | start => exact .inl ⟨rfl, rfl⟩
  | @forth o lap h ho ih =>
      have h1 := h.bounds.1
      obtain ⟨rfl, rfl⟩ | ⟨rfl, rfl⟩ | ⟨x, y, z, rest, rfl, hx⟩ := ih
      · exact .inr (.inl ⟨rfl, rfl⟩)
      · exact .inr (.inr ⟨e, e, e, [], rfl, .inl ⟨rfl, by decide, fun _ => rfl⟩⟩)
      · refine .inr (.inr ⟨e, x, y, z :: rest, rfl, .inl ⟨rfl, by omega, fun hxe => ?_⟩⟩)
        obtain ⟨-, h2, -⟩ | ⟨hxb, -, -⟩ := hx
        · omega
        · exact absurd (hxb.symm.trans hxe) e.back_ne
  | @back o lap h ho ih =>
      have h3 := h.bounds.2
      obtain ⟨rfl, h2⟩ | ⟨rfl, h2⟩ | ⟨x, y, z, rest, rfl, hx⟩ := ih
      · omega
      · exact .inr (.inr ⟨e.back, e, e, [], rfl, .inr ⟨rfl, by omega, fun _ => by omega⟩⟩)
      · refine .inr (.inr ⟨e.back, x, y, z :: rest, rfl, .inr ⟨rfl, by omega, fun hxb => ?_⟩⟩)
        obtain ⟨hxe, -, -⟩ | ⟨-, h2, -⟩ := hx
        · exact absurd (hxb.symm.trans hxe) e.back_ne
        · omega

end InLap

/-! ### The direction in the course of a lap -/

/-- The direction of the last full turn. -/
def lastDir : Option Quarter → ℤ
  | none => 0
  | some m => m.dir

/-- A lock position after laps each of which was a full turn and reported as one, the last of
them `turned`. -/
structure AtLock (turned : Option Quarter) (before : List Quarter) : Prop where
  net_eq : net before = 4 * reports before
  dir_eq : wheelDir before = lastDir turned
  ends : turned = none ∧ before = [] ∨
    ∃ m x y rest, turned = some m ∧ before = m :: m :: x :: y :: rest

variable {turned : Option Quarter} {before lap past : List Quarter} {e m : Quarter} {o : ℕ}

/-- Between lock positions matches are counted. -/
theorem wheelDir_between (h : ¬ 4 ∣ net (m :: past)) :
    wheelDir (m :: past) =
      wheelDir past + matched (placeAfter (m :: past)) (window (m :: past)) := by
  rw [wheelDir, if_neg (mt (placeAfter_eq_three _).mp h)]

/-- On a lock position the count is reduced to a direction. -/
theorem wheelDir_lock (h : 4 ∣ net (m :: past)) :
    wheelDir (m :: past) =
      if wheelDir past + matched (placeAfter (m :: past)) (window (m :: past)) > 0 then 1
      else -1 := by
  rw [wheelDir, if_pos ((placeAfter_eq_three _).mpr h)]

/-- Between lock positions nothing is reported. -/
theorem reports_between (h : ¬ 4 ∣ net (m :: past)) : reports (m :: past) = reports past := by
  rw [reports, if_neg (mt (placeAfter_eq_three _).mp h), add_zero]

/-- On a lock position the direction is reported. -/
theorem reports_lock (h : 4 ∣ net (m :: past)) :
    reports (m :: past) = reports past + wheelDir (m :: past) := by
  rw [reports, if_pos ((placeAfter_eq_three _).mpr h)]

/-- A lap starts at a multiple of four. -/
theorem AtLock.dvd (hb : AtLock turned before) : 4 ∣ net before :=
  ⟨_, hb.net_eq⟩

/-- What holds after a lap holds after the laps before it. -/
theorem AtLock.dvd_iff (hb : AtLock turned before) (lap : List Quarter) :
    4 ∣ net (lap ++ before) ↔ 4 ∣ net lap := by
  rw [net_append]
  exact Int.dvd_add_left hb.dvd

/-- In the middle of a lap the wheel is not on a lock position. -/
theorem AtLock.not_dvd (hb : AtLock turned before) (h : InLap e o lap) :
    ¬ 4 ∣ net (lap ++ before) :=
  mt (hb.dvd_iff lap).mp h.not_dvd

/-- Before four places are known nothing matches. -/
theorem matched_first (hlap : lap = [e] ∨ lap = [e, e] ∨ lap = [e, e, e] ∨ lap = [e.back, e, e]) :
    matched (placeAfter lap) (window lap) = 0 := by
  rcases hlap with rfl | rfl | rfl | rfl <;> cases e <;> decide

/-- How a lap starts is known after three quarter turns. -/
theorem starts_cons (hlap : 3 ≤ lap.length) : Starts e (m :: lap) ↔ Starts e lap := by
  refine List.suffix_cons_iff.trans (or_iff_right fun h => ?_)
  have := congrArg List.length h
  simp only [List.length_cons, List.length_nil] at this
  omega

/-- What is matched up to a place in the middle of a lap, beyond the direction of the last
full turn: the first two places when the lap goes on the same way, and the third when it
starts straight. -/
def gained (turned : Option Quarter) (e : Quarter) (lap : List Quarter) : ℤ :=
  (if turned = some e then min 2 lap.length else 0) +
    if turned ≠ none ∧ Starts e lap then 1 else 0

theorem not_starts (hlap : lap.length < 3) : ¬ Starts e lap := by
  intro h
  have := List.IsSuffix.length_le h
  simp only [List.length_cons, List.length_nil] at this
  omega

theorem starts_three : Starts e [m, e, e] ↔ m = e := by
  constructor
  · intro h
    have heq : [e, e, e] = [m, e, e] := List.IsSuffix.eq_of_length h rfl
    exact (List.cons.inj heq).1.symm
  · rintro rfl
    exact List.suffix_rfl

theorem gained_nil : gained turned e [] = 0 := by
  simp [gained, not_starts]

theorem gained_one : gained turned e [m] = if turned = some e then 1 else 0 := by
  simp [gained, not_starts]

theorem gained_two : gained turned e [m, e] = if turned = some e then 2 else 0 := by
  simp [gained, not_starts]

theorem gained_three :
    gained turned e [m, e, e] =
      (if turned = some e then 2 else 0) + if turned ≠ none ∧ m = e then 1 else 0 := by
  simp [gained, starts_three]

/-- Nothing is gained after the third quarter turn. -/
theorem gained_long (hlap : 3 ≤ lap.length) :
    gained turned e (m :: lap) = gained turned e lap := by
  have hlen : min 2 (m :: lap).length = min 2 lap.length := by
    rw [List.length_cons]
    omega
  simp only [gained, hlen, starts_cons hlap]

/-- After the third quarter turn of a lap nothing matches while the last three differ. -/
theorem matched_apart {x y z : Quarter} {rest : List Quarter} (hno : ¬ (m = x ∧ x = y))
    (before : List Quarter) :
    e.dir * gained turned e (m :: x :: y :: z :: rest) =
      e.dir * gained turned e (x :: y :: z :: rest) +
        matched (placeAfter (m :: (x :: y :: z :: rest ++ before)))
          (window (m :: (x :: y :: z :: rest ++ before))) := by
  have hlong : 3 ≤ (x :: y :: z :: rest).length := by simp
  rw [gained_long hlong, List.cons_append, List.cons_append, List.cons_append, matched_four,
    if_neg hno, add_zero]

/-- What a quarter turn matches that leads to a place in the middle of a lap. -/
theorem AtLock.matched_middle (hb : AtLock turned before) (h : InLap e o (m :: lap)) :
    e.dir * gained turned e (m :: lap) = e.dir * gained turned e lap +
      matched (placeAfter (m :: (lap ++ before))) (window (m :: (lap ++ before))) := by
  cases h with
  | start =>
      rw [gained_one, gained_nil]
      obtain ⟨rfl, rfl⟩ | ⟨f, x, y, rest, rfl, rfl⟩ := hb.ends
      · rw [List.append_nil, matched_first (.inl rfl)]
        simp
      · rw [List.nil_append, matched_four]
        simp [eq_comm]
  | @forth o lap h ho =>
      obtain ⟨rfl, -⟩ | ⟨rfl, -⟩ | ⟨x, y, z, rest, rfl, hx⟩ := h.shape
      · rw [gained_two, gained_one]
        obtain ⟨rfl, rfl⟩ | ⟨f, x, y, rest, rfl, rfl⟩ := hb.ends
        · rw [List.append_nil, matched_first (.inr (.inl rfl))]
          simp
        · rw [List.singleton_append, matched_four]
          by_cases hf : f = e
          · simp [hf]
            ring
          · simp [hf, Ne.symm hf]
      · rw [gained_three, gained_two]
        obtain ⟨rfl, rfl⟩ | ⟨f, x, y, rest, rfl, rfl⟩ := hb.ends
        · rw [List.append_nil, matched_first (.inr (.inr (.inl rfl)))]
          simp
        · rw [List.cons_append, List.singleton_append, matched_four]
          simp [mul_add]
      · have hno : ¬ (e = x ∧ x = y) := by
          rintro ⟨rfl, rfl⟩
          obtain ⟨-, -, h3⟩ | ⟨hxb, -, -⟩ := hx
          · have := h3 rfl
            omega
          · exact Quarter.back_ne _ hxb.symm
        exact matched_apart hno before
  | @back o lap h ho =>
      obtain ⟨rfl, h1⟩ | ⟨rfl, -⟩ | ⟨x, y, z, rest, rfl, hx⟩ := h.shape
      · omega
      · rw [gained_three, gained_two]
        obtain ⟨rfl, rfl⟩ | ⟨f, x, y, rest, rfl, rfl⟩ := hb.ends
        · rw [List.append_nil, matched_first (.inr (.inr (.inr rfl)))]
          simp
        · rw [List.cons_append, List.singleton_append, matched_four]
          simp [Quarter.back_ne]
      · have hno : ¬ (e.back = x ∧ x = y) := by
          rintro ⟨rfl, rfl⟩
          obtain ⟨hxe, -, -⟩ | ⟨-, -, h1⟩ := hx
          · exact Quarter.back_ne _ hxe
          · have := h1 rfl
            omega
        exact matched_apart hno before

/-- In the middle of a lap `wi_dir` has what was gained, and nothing was reported. -/
theorem AtLock.middle (hb : AtLock turned before) (h : InLap e o lap) :
    wheelDir (lap ++ before) = lastDir turned + e.dir * gained turned e lap ∧
      reports (lap ++ before) = reports before := by
  have hstep : ∀ {m lap o}, InLap e o (m :: lap) →
      wheelDir (lap ++ before) = lastDir turned + e.dir * gained turned e lap →
      wheelDir (m :: (lap ++ before)) =
        lastDir turned + e.dir * gained turned e (m :: lap) := by
    intro m lap o h ih
    have hd : ¬ 4 ∣ net (m :: (lap ++ before)) := hb.not_dvd h
    rw [wheelDir_between hd, ih, hb.matched_middle h, add_assoc]
  induction h with
  | start =>
      refine ⟨hstep .start ?_, reports_between (hb.not_dvd .start)⟩
      rw [gained_nil, mul_zero, add_zero]
      exact hb.dir_eq
  | forth h ho ih =>
      exact ⟨hstep (h.forth ho) ih.1, (reports_between (hb.not_dvd (h.forth ho))).trans ih.2⟩
  | back h ho ih =>
      exact ⟨hstep (h.back ho) ih.1, (reports_between (hb.not_dvd (h.back ho))).trans ih.2⟩

theorem ends_cons (x y z : Quarter) (rest : List Quarter) :
    Ends m (x :: y :: z :: rest) ↔ x = m ∧ y = m ∧ z = m := by
  simp only [Ends, List.cons_prefix_cons, List.nil_prefix, and_true]
  exact ⟨fun ⟨hx, hy, hz⟩ => ⟨hx.symm, hy.symm, hz.symm⟩,
    fun ⟨hx, hy, hz⟩ => ⟨hx.symm, hy.symm, hz.symm⟩⟩

/-- A lap that is three quarter turns to its side got there by the last two. -/
theorem InLap.shape_three (h : InLap e 3 lap) : ∃ y z rest, lap = e :: y :: z :: rest := by
  obtain ⟨-, h1⟩ | ⟨-, h2⟩ | ⟨x, y, z, rest, rfl, ⟨rfl, -, -⟩ | ⟨-, h2, -⟩⟩ := h.shape
  · omega
  · omega
  · exact ⟨y, z, rest, rfl⟩
  · omega

/-- **The direction reported after a full turn** is that of the turn when the condition on the
lap holds. -/
theorem AtLock.arrival (hb : AtLock turned before) (h : InLap e 3 lap) :
    wheelDir (e :: (lap ++ before)) = e.dir ↔ LapOk turned (e :: lap) := by
  have hlock : 4 ∣ net (e :: (lap ++ before)) := (hb.dvd_iff (e :: lap)).mpr ⟨_, h.net_turn⟩
  have hnet := h.net_turn
  have hmiddle := (hb.middle h).1
  obtain ⟨y, z, rest, rfl⟩ := h.shape_three
  have hstarts : Starts e (e :: e :: y :: z :: rest) ↔ Starts e (e :: y :: z :: rest) :=
    starts_cons (by simp)
  have hmatched : matched (placeAfter (e :: (e :: y :: z :: rest ++ before)))
      (window (e :: (e :: y :: z :: rest ++ before))) = if y = e then e.dir else 0 := by
    rw [List.cons_append, List.cons_append, List.cons_append, matched_four]
    simp [eq_comm]
  have hgained : gained turned e (e :: y :: z :: rest) =
      (if turned = some e then 2 else 0) +
        if turned ≠ none ∧ Starts e (e :: y :: z :: rest) then 1 else 0 := by
    simp [gained]
  rw [wheelDir_lock hlock, hmiddle, hmatched, LapOk, hnet, hgained]
  cases e with
  | left =>
      by_cases hs : Starts .left (.left :: y :: z :: rest) <;>
        simp only [hstarts, ends_cons, hs] <;>
        by_cases hy : y = .left <;>
        rcases turned with _ | _ | _ <;>
        simp [hy, lastDir, Quarter.dir]
  | right =>
      by_cases hs : Starts .right (.right :: y :: z :: rest) <;>
        simp only [hstarts, ends_cons, hs] <;>
        by_cases hy : y = .right <;>
        rcases turned with _ | _ | _ <;>
        simp [hy, lastDir, Quarter.dir]

/-- At every lock position among the places the directions reported sum up to the turns. -/
def OnTurn (past : List Quarter) : Prop := 4 ∣ net past → net past = 4 * reports past

/-- So at every lock position in the course of quarter turns. -/
def Counts (past : List Quarter) : List Quarter → Prop
  | [] => OnTurn past
  | m :: ms => OnTurn past ∧ Counts (m :: past) ms

theorem Counts.onTurn {ms : List Quarter} (h : Counts past ms) : OnTurn past := by
  cases ms with
  | nil => exact h
  | cons m ms => exact h.1

theorem counts_cons {ms : List Quarter} (hpast : OnTurn past) :
    Counts past (m :: ms) ↔ Counts (m :: past) ms :=
  and_iff_right hpast

/-- After a full turn reported as one the wheel is at such a lock position again. -/
theorem AtLock.turn (hb : AtLock turned before) (h : InLap e 3 lap) :
    (OnTurn (e :: (lap ++ before)) ↔ wheelDir (e :: (lap ++ before)) = e.dir) ∧
      (wheelDir (e :: (lap ++ before)) = e.dir → AtLock (some e) (e :: (lap ++ before))) := by
  have hnet : net (e :: (lap ++ before)) = 4 * e.dir + net before := by
    rw [← List.cons_append, net_append, h.net_turn]
  have hlock : 4 ∣ net (e :: (lap ++ before)) := (hb.dvd_iff (e :: lap)).mpr ⟨_, h.net_turn⟩
  have hreports : reports (e :: (lap ++ before)) =
      reports before + wheelDir (e :: (lap ++ before)) := by
    rw [reports_lock hlock, (hb.middle h).2]
  have hbefore := hb.net_eq
  refine ⟨⟨fun hturn => ?_, fun hdir _ => ?_⟩, fun hdir => ⟨?_, hdir, .inr ?_⟩⟩
  · have heq := hturn hlock
    omega
  · omega
  · omega
  · obtain ⟨y, z, rest, rfl⟩ := h.shape_three
    exact ⟨e, y, z, rest ++ before, rfl, rfl⟩

/-- A wheel that comes back the way it went reports a turn that it did not make. -/
theorem AtLock.not_onTurn (hb : AtLock turned before) (h : InLap e 1 lap) :
    ¬ OnTurn (e.back :: (lap ++ before)) := by
  have hnet : net (e.back :: (lap ++ before)) = net before := by
    rw [← List.cons_append, net_append, h.net_return, zero_add]
  have hlock : 4 ∣ net (e.back :: (lap ++ before)) := hnet ▸ hb.dvd
  intro hturn
  have heq := hturn hlock
  rw [hnet, reports_lock hlock, (hb.middle h).2, hb.net_eq, wheelDir_lock hlock] at heq
  split at heq <;> omega

/-- Where a lap starts, and in the middle of it, there is nothing to be shown. -/
theorem AtLock.onTurn (hb : AtLock turned before)
    (hlap : lap = [] ∨ ∃ e o, InLap e o lap) : OnTurn (lap ++ before) := by
  obtain rfl | ⟨e, o, h⟩ := hlap
  · exact fun _ => hb.net_eq
  · exact fun hd => absurd hd (hb.not_dvd h)

/-- A lap without a turn does not meet the condition. -/
theorem not_lapOk (hnet : net lap = 0) : ¬ LapOk turned lap := by
  rintro (⟨h, -⟩ | ⟨h, -⟩) <;> omega

/-- **The reports count the turns** when the condition holds of every lap. -/
theorem counts_iff (ms : List Quarter) (hb : AtLock turned before)
    (hlap : lap = [] ∨ ∃ e o, InLap e o lap) :
    Counts (lap ++ before) ms ↔ LapsOk turned lap ms := by
  induction ms generalizing turned before lap with
  | nil => exact iff_of_true (hb.onTurn hlap) trivial
  | cons m ms ih =>
      rw [counts_cons (hb.onTurn hlap), LapsOk]
      -- the lap goes on
      have hmiddle : ∀ {e o}, InLap e o (m :: lap) →
          (Counts (m :: (lap ++ before)) ms ↔ if 4 ∣ net (m :: lap)
            then LapOk turned (m :: lap) ∧ LapsOk (some m) [] ms
            else LapsOk turned (m :: lap) ms) := by
        intro e o h
        rw [if_neg h.not_dvd]
        exact ih hb (.inr ⟨e, o, h⟩)
      obtain rfl | ⟨e, o, h⟩ := hlap
      · exact hmiddle .start
      obtain ⟨h1, h3⟩ := h.bounds
      obtain rfl | rfl := e.eq_or_back m
      · obtain ho | rfl : o + 1 ≤ 3 ∨ o = 3 := by omega
        · exact hmiddle (h.forth ho)
        · -- a full turn
          obtain ⟨hturn, hlock⟩ := hb.turn h
          rw [if_pos ⟨_, h.net_turn⟩, ← hb.arrival h]
          by_cases hdir : wheelDir (m :: (lap ++ before)) = m.dir
          · rw [and_iff_right hdir]
            exact ih (hlock hdir) (.inl rfl)
          · exact iff_of_false (fun hc => hdir (hturn.mp hc.onTurn)) (fun hc => hdir hc.1)
      · obtain rfl | ho : o = 1 ∨ 2 ≤ o := by omega
        · -- back where the lap started
          rw [if_pos (h.net_return ▸ dvd_zero 4)]
          exact iff_of_false (fun hc => hb.not_onTurn h hc.onTurn)
            (fun hc => not_lapOk h.net_return hc.1)
        · obtain ⟨o, rfl⟩ : ∃ o', o = o' + 1 := ⟨o - 1, by omega⟩
          exact hmiddle (h.back (by omega))

/-! ### The wheel of the controller -/

/-- What the controller knows of the inner wheel after quarter turns, the latest first. -/
structure Follows (s : ViMoController) (past : List Quarter) : Prop where
  place : s.vmd_old.i = placeAfter past
  hist : s.wi_hist.toNat % 65536 = window past
  dir : s.wi_dir = wheelDir past
  reported : s.reported = reports past

variable {s : ViMoController}

theorem reported_append (s : ViMoController) (calls : List ViMoEvent) :
    reported { s with events := s.events ++ calls } =
      s.reported + (calls.map ViMoEvent.direction).sum := by
  simp [reported]

/-- The buttons report no direction. -/
theorem buttons_direction (events : List (ButtonEvent 8)) :
    ((events.map ViMoEvent.button).map ViMoEvent.direction).sum = 0 := by
  induction events with
  | nil => rfl
  | cons e events ih => simpa [ViMoEvent.direction] using ih

/-- The buttons are in another byte. -/
theorem setK_i (d : ViMoData) (k : BitVec 7) : (d.setK k).i = d.i := by
  simp [ViMoData.setK, ViMoData.i]

/-- The tables are compared with the last four places. -/
theorem table_eq (i : BitVec 2) (hist : BitVec 32) (dir : ℤ) :
    (if wi_right.get ⟨i.toNat, i.isLt⟩ = hist &&& 0xffff then dir + 1
      else if wi_left.get ⟨i.toNat, i.isLt⟩ = hist &&& 0xffff then dir - 1 else dir) =
      dir + matched i (hist.toNat % 65536) := by
  simp only [matched, ← BitVec.toNat_inj, and_mask]
  split
  · rfl
  · split <;> ring

/-- The inner wheel was not moved. -/
theorem dispatchInner_same (hi : s.vmd.i = s.vmd_old.i) : s.dispatchInner = s := by
  simp [dispatchInner, hi]

/-- **A quarter turn of the inner wheel.** -/
theorem dispatchInner_turn (hs : Follows s past) (hi : s.vmd.i = m.next (placeAfter past)) :
    s.dispatchInner.wi_hist.toNat % 65536 = window (m :: past) ∧
      s.dispatchInner.wi_dir = wheelDir (m :: past) ∧
      s.dispatchInner.reported = reports (m :: past) := by
  have hmoved : s.vmd.i ^^^ s.vmd_old.i ≠ 0 := by
    rw [Ne, BitVec.ofNat_eq_ofNat, BitVec.xor_eq_zero_iff, hi, hs.place]
    exact m.next_ne _
  have hhist : (s.wi_hist <<< 4 ||| s.vmd.i.setWidth 32).toNat % 65536 = window (m :: past) := by
    rw [hist_step, hs.hist, hi]
    rfl
  simp only [dispatchInner]
  rw [if_pos hmoved, table_eq, hhist, hs.dir, hi]
  rw [hi] at hhist
  by_cases hlock : m.next (placeAfter past) = 3
  · have hdir : wheelDir (m :: past) =
        if wheelDir past + matched (m.next (placeAfter past)) (window (m :: past)) > 0 then 1
        else -1 := if_pos hlock
    have hreports : reports (m :: past) = reports past + wheelDir (m :: past) := by
      rw [reports, placeAfter, if_pos hlock]
    rw [if_pos hlock, ← hdir]
    refine ⟨hhist, rfl, ?_⟩
    rw [hreports, ← hs.reported]
    simp [reported, ViMoEvent.direction]
  · have hdir : wheelDir (m :: past) =
        wheelDir past + matched (m.next (placeAfter past)) (window (m :: past)) := if_neg hlock
    have hreports : reports (m :: past) = reports past := by
      rw [reports, placeAfter, if_neg hlock, add_zero]
    rw [if_neg hlock, ← hdir]
    exact ⟨hhist, rfl, hreports ▸ hs.reported⟩

/-- The outer wheel leaves the inner one alone. -/
theorem Follows.outer (hplace : s.vmd.i = placeAfter past)
    (hinner : s.wi_hist.toNat % 65536 = window past ∧ s.wi_dir = wheelDir past ∧
      s.reported = reports past) : Follows s.dispatchOuter.dispatchDone past := by
  obtain ⟨hhist, hdir, hreported⟩ := hinner
  simp only [dispatchOuter]
  split
  · refine ⟨hplace, hhist, hdir, (reported_append s [_]).trans ?_⟩
    simp [hreported, ViMoEvent.direction]
  · exact ⟨hplace, hhist, hdir, hreported⟩

theorem dispatchInner_vmd (s : ViMoController) : s.dispatchInner.vmd = s.vmd := by
  obtain ⟨_, _, _, -, h⟩ := dispatchInner_eq s
  rw [h]

/-- **One packet**: the controller follows the wheel. -/
theorem Follows.dispatch (hs : Follows s past) {d : ViMoData}
    (hd : d.i = placeAfter past ∨ ∃ m : Quarter, d.i = m.next (placeAfter past)) :
    Follows (dispatch { s with vmd := d })
        ((quarter (placeAfter past) d.i).toList ++ past) := by
  set u := dispatchButtons (dispatchKeys { s with vmd := d }) with hu
  have hreported : u.reported = s.reported := by
    rw [hu, dispatchButtons, reported_append, buttons_direction, add_zero]
    rfl
  have hfollows : Follows u past := ⟨hs.place, hs.hist, hs.dir, hreported.trans hs.reported⟩
  have hui : u.vmd.i = d.i := setK_i d _
  change Follows u.dispatchInner.dispatchOuter.dispatchDone _
  obtain hsame | ⟨m, hm⟩ := hd
  · rw [dispatchInner_same (hui.trans (hsame.trans hs.place.symm)), hsame, quarter_self]
    exact .outer (hui.trans hsame) ⟨hfollows.hist, hfollows.dir, hfollows.reported⟩
  · rw [hm, quarter_next]
    refine .outer ?_ (dispatchInner_turn hfollows (hui.trans hm))
    rw [dispatchInner_vmd, hui, hm]
    rfl

/-- The place that a packet reports. -/
theorem placeAfter_quarter {i : BitVec 2}
    (hi : i = placeAfter past ∨ ∃ m : Quarter, i = m.next (placeAfter past)) :
    placeAfter ((quarter (placeAfter past) i).toList ++ past) = i := by
  obtain rfl | ⟨m, rfl⟩ := hi
  · rw [quarter_self]
    rfl
  · rw [quarter_next]
    rfl

/-- **Any packets**: the controller follows the wheel. -/
theorem Follows.deliver (hs : Follows s past) {ds : List ViMoData}
    (hds : OnePlace (placeAfter past) ds) :
    Follows (s.deliver ds) ((moves (placeAfter past) ds).reverse ++ past) := by
  induction ds generalizing s past with
  | nil => exact hs
  | cons d ds ih =>
      have hplace := placeAfter_quarter hds.1
      have hrest := ih (hs.dispatch hds.1) (hplace.symm ▸ hds.2)
      rw [hplace] at hrest
      have hmoves : (moves (placeAfter past) (d :: ds)).reverse ++ past =
          (moves d.i ds).reverse ++ ((quarter (placeAfter past) d.i).toList ++ past) := by
        rw [moves, List.reverse_append, List.append_assoc]
        rcases quarter (placeAfter past) d.i with _ | m <;> rfl
      rw [hmoves]
      exact hrest

/-- A controller just opened takes the wheel to be on the lock position. -/
theorem opened_follows (fd : ℤ) : Follows (opened fd) [] := by
  have hplace : (⟨#v[0x03, 0xfc, 0, 0]⟩ : ViMoData).i = 3 := by decide
  exact ⟨hplace, rfl, rfl, rfl⟩

/-! ### The places among which the wheel is on the lock position -/

/-- What the first packets report are the first quarter turns. -/
theorem moves_take (p : BitVec 2) (ds : List ViMoData) (n : ℕ) :
    moves p (ds.take n) <+: moves p ds := by
  induction ds generalizing p n with
  | nil => simp [moves]
  | cons d ds ih =>
      cases n with
      | zero => exact List.nil_prefix
      | succ n =>
          rw [List.take_succ_cons, moves, moves]
          exact (List.prefix_append_right_inj _).mpr (ih d.i n)

/-- The first quarter turns are what some first packets report. -/
theorem exists_moves_take (p : BitVec 2) (ds : List ViMoData) {ms : List Quarter}
    (h : ms <+: moves p ds) : ∃ n, moves p (ds.take n) = ms := by
  induction ds generalizing p ms with
  | nil => exact ⟨0, (List.prefix_nil.mp h).symm⟩
  | cons d ds ih =>
      rw [moves] at h
      rcases hq : quarter p d.i with _ | m
      · rw [hq] at h
        obtain ⟨n, hn⟩ := ih d.i h
        refine ⟨n + 1, ?_⟩
        rw [List.take_succ_cons, moves, hq, hn]
        rfl
      · rw [hq] at h
        obtain rfl | ⟨rest, rfl, hrest⟩ := List.prefix_cons_iff.mp h
        · exact ⟨0, rfl⟩
        · obtain ⟨n, hn⟩ := ih d.i hrest
          refine ⟨n + 1, ?_⟩
          rw [List.take_succ_cons, moves, hq, hn]
          rfl

/-- The reports count the turns in the course of quarter turns when they do after each. -/
theorem counts_prefix (ms : List Quarter) :
    Counts past ms ↔ ∀ more, more <+: ms → OnTurn (more.reverse ++ past) := by
  induction ms generalizing past with
  | nil => simp [Counts]
  | cons m ms ih =>
      rw [Counts, ih]
      constructor
      · rintro ⟨hpast, hrest⟩ more hmore
        obtain rfl | ⟨tail, rfl, htail⟩ := List.prefix_cons_iff.mp hmore
        · exact hpast
        · simpa using hrest tail htail
      · intro h
        refine ⟨h [] List.nil_prefix, fun more hmore => ?_⟩
        simpa using h (m :: more) ((List.prefix_cons_inj m).mpr hmore)

theorem opened_atLock : AtLock none [] :=
  ⟨rfl, rfl, .inl ⟨rfl, rfl⟩⟩

end ViMoController

open ViMoController

/-- **The inner wheel.** While each packet reports the place before it or one next to it, the
directions reported sum up to the net number of complete turns at every time the wheel is on
the lock position, if and only if every lap from one lock position to the next is a full turn
that meets the condition of `LapOk`. -/
theorem inner_wheel_counts_iff (fd : ℤ) (ds : List ViMoData) (h : OnePlace 3 ds) :
    (∀ n, ((opened fd).deliver (ds.take n)).vmd_old.i = 3 →
        ((opened fd).deliver (ds.take n)).reported = net (moves 3 (ds.take n)) / 4) ↔
      LapsOk none [] (moves 3 ds) := by
  have hturn : ∀ n, (((opened fd).deliver (ds.take n)).vmd_old.i = 3 →
      ((opened fd).deliver (ds.take n)).reported = net (moves 3 (ds.take n)) / 4) ↔
        OnTurn ((moves 3 (ds.take n)).reverse ++ []) := by
    intro n
    have hfollows : Follows ((opened fd).deliver (ds.take n))
        ((moves 3 (ds.take n)).reverse ++ []) := (opened_follows fd).deliver (h.take n)
    rw [hfollows.place, hfollows.reported, placeAfter_eq_three, OnTurn]
    refine imp_congr_right fun hd => ?_
    have hnet : net ((moves 3 (ds.take n)).reverse ++ []) = net (moves 3 (ds.take n)) := by simp
    rw [hnet] at hd ⊢
    omega
  rw [← counts_iff (moves 3 ds) opened_atLock (.inl rfl), List.append_nil, counts_prefix]
  constructor
  · intro hall more hmore
    obtain ⟨n, rfl⟩ := exists_moves_take 3 ds hmore
    exact (hturn n).mp (hall n)
  · intro hall n
    exact (hturn n).mpr (hall _ (moves_take 3 ds n))

/-- The packets of a full turn to the right, with no button pressed. -/
def rightTurn : List ViMoData :=
  [⟨#v[0x03, 0xbc, 0xff, 0]⟩, ⟨#v[0x03, 0x3c, 0xff, 0]⟩, ⟨#v[0x03, 0x7c, 0xff, 0]⟩,
    ⟨#v[0x03, 0xfc, 0xff, 0]⟩]

/-- A full turn to the right is counted. -/
theorem inner_wheel_counts_iff_right :
    ((opened 3).deliver (rightTurn.take 4)).vmd_old.i = 3 ∧
      ((opened 3).deliver (rightTurn.take 4)).reported = 1 := by
  have hlock : ((opened 3).deliver (rightTurn.take 4)).vmd_old.i = 3 := by decide
  have hplaces : OnePlace 3 rightTurn :=
    ⟨.inr ⟨.right, by decide⟩, .inr ⟨.right, by decide⟩, .inr ⟨.right, by decide⟩,
      .inr ⟨.right, by decide⟩, trivial⟩
  exact ⟨hlock, (inner_wheel_counts_iff 3 rightTurn hplaces).mpr (by decide) 4 hlock⟩

/-- The wheel moves one place to the right and back: a turn to the left is reported. -/
theorem inner_wheel_jitter :
    OnePlace 3 [⟨#v[0x03, 0xbc, 0xff, 0]⟩, ⟨#v[0x03, 0xfc, 0xff, 0]⟩] ∧
      ((opened 3).deliver [⟨#v[0x03, 0xbc, 0xff, 0]⟩, ⟨#v[0x03, 0xfc, 0xff, 0]⟩]).vmd_old.i = 3 ∧
      ((opened 3).deliver [⟨#v[0x03, 0xbc, 0xff, 0]⟩, ⟨#v[0x03, 0xfc, 0xff, 0]⟩]).reported = -1 ∧
      net (moves 3 [⟨#v[0x03, 0xbc, 0xff, 0]⟩, ⟨#v[0x03, 0xfc, 0xff, 0]⟩]) / 4 = 0 :=
  ⟨⟨.inr ⟨.right, by decide⟩, .inr ⟨.left, by decide⟩, trivial⟩, by decide, by decide, by decide⟩

end FreeJ
