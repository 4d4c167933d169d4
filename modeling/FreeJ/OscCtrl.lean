import Mathlib.Data.List.Find
import FreeJ.LinklistShape
import FreeJ.Transition

/-!
# The OSC Controller

`osc_ctrl.cpp`. A message of Open Sound Control is handled in the thread of the server: the
method of its path is searched in `commands_handled`, and a call of the JavaScript function
of that method is appended to `commands_pending`. `poll`, in the thread of the engine, takes
the calls out of that list, one after the other, and makes them.

Each operation of a list and each access to an entry is a step. Memory that was not allocated,
or was freed, must not be accessed: where it is, there is no step. The messages that
were handled, the calls that were queued and those that were executed are recorded.

A method is the first one whose name, cut to what an entry holds, is the path, whatever the
case of the letters. When the types are other ones the message is refused, even if another
method of that name has them.

## Main results

* `OscController.Inv`: the lists, the entries on their way and the records in every state.
* `osc_exactly_once`: the calls queued are the answers to the messages handled, and those
  executed are the ones queued so far, in order, but for those that still wait in the list;
  the engine never meets freed memory and gets through the list.
-/

namespace FreeJ

open Function (update)
open Transition

/-- The two lists of the controller. -/
inductive OscList
  | handled
  | pending
  deriving DecidableEq

/-- The arguments of `add_method`. -/
structure OscMethod where
  osc_cmd : CString
  proto_cmd : CString
  js_cmd : CString
  deriving DecidableEq

/-- `OscCommand`, with the name of the entry. -/
structure OscCommand where
  /-- `char[256]`, always terminated. -/
  name : CString
  /-- `char[128]`, which is not terminated when it is full. -/
  proto_cmd : CString
  /-- `char[512]` -/
  js_cmd : CString

/-- What `add_method` stores of its arguments. -/
def OscMethod.command (method : OscMethod) : OscCommand where
  name := method.osc_cmd.take 255
  proto_cmd := method.proto_cmd.take 128
  js_cmd := method.js_cmd.take 512

/-- A `jsval` made of an argument, which is a union of all types. -/
inductive JsVal (V : Type*)
  | int32 (arg : V)
  | float (arg : V)
  | string (arg : V)
  /-- As allocated. -/
  | zero
  deriving DecidableEq

/-- A message, with as many arguments as types. -/
structure OscMessage (V : Type*) where
  path : CString
  types : CString
  argv : List V
  argc : argv.length = types.strlen

/-- `JsCommand`, with the name of the entry; `argv` is what was allocated for it. -/
structure JsCommand (V : Type*) where
  name : CString
  argc : ℕ
  argv : Option (List (JsVal V))

/-- `JSCall`: a function and its arguments. -/
structure JsCall (V : Type*) where
  funcname : CString
  argv : List (JsVal V)
  deriving DecidableEq

/-- What the thread of the server does next: it waits for a message, or has a command to
append. -/
inductive OscServer (E : Type*)
  | idle
  | append (jscmd : E)

/-- What the thread of the engine does next, in `poll` and `dispatch`. -/
inductive OscEngine (E : Type*)
  | poll
  | first
  | call (jscmd : E)
  | free (jscmd : E)
  | rem (jscmd : E)
  | delete (jscmd : E)

/-- `OscController` with the memory of its entries. -/
structure OscController (E V : Type*) where
  heap : Heap E OscList
  command : E → OscCommand
  jscmd : E → JsCommand V
  /-- The entries that were allocated and not deleted. -/
  live : E → Bool
  server : OscServer E
  engine : OscEngine E
  received : List (OscMessage V)
  queued : List (JsCall V)
  executed : List (JsCall V)

/-- `strcmp` with an array of 128 characters: running past its end is undefined. -/
def strcmp128 (types proto_cmd : CString) : Option Bool :=
  if proto_cmd.strlen < 128 then some (types = proto_cmd)
  else if types.chars.take 128 = proto_cmd.chars then none
  else some false

/-- `osc_command_handler`, put a value into the jsval array. -/
def JsVal.ofArg {V : Type*} (type : CHAR) (arg : V) : JsVal V :=
  if type = 0x69 then .int32 arg
  else if type = 0x66 then .float arg
  else if type = 0x73 then .string arg
  else .zero

namespace OscController

variable {E V : Type*} [DecidableEq E]

/-- The controller, with nothing registered. -/
def init (command : E → OscCommand) (jscmd : E → JsCommand V) : OscController E V where
  heap := Heap.fresh
  command := command
  jscmd := jscmd
  live := fun _ => false
  server := .idle
  engine := .poll
  received := []
  queued := []
  executed := []

/-- `js_osc_ctrl_add_method`; `cmd` is the new entry. -/
def add_method (s : OscController E V) (cmd : E) (method : OscMethod) : OscController E V :=
  { s with
    heap := Linklist.append (Entry.construct s.heap cmd) .handled cmd
    command := update s.command cmd method.command
    live := update s.live cmd true }

/-- `osc_command_handler`, the command made of a message. -/
def makeCommand (cmd : OscCommand) (m : OscMessage V) : JsCommand V where
  name := cmd.js_cmd.take 255
  argc := m.argv.length
  argv := some (List.zipWith JsVal.ofArg m.types.chars m.argv)

/-- `osc_command_handler`, up to the point where the command is to be appended; `jscmd` is
the new entry. -/
def handle (s : OscController E V) (m : OscMessage V) (jscmd : E) :
    Option (OscController E V) :=
  let s := { s with received := s.received ++ [m] }
  (Linklist.search s.heap (fun e => (s.command e).name) .handled m.path).bind fun
    | (none, _) => some s -- no method is handling it
    | (some cmd, _) =>
      (strcmp128 m.types (s.command cmd).proto_cmd).bind fun
        | false => some s -- called with wrong types
        | true =>
          if s.live jscmd then none
          else some
            { s with
              heap := Entry.construct s.heap jscmd
              jscmd := update s.jscmd jscmd (makeCommand (s.command cmd) m)
              live := update s.live jscmd true
              server := .append jscmd }

/-- The call that an entry stands for. -/
def callOf (s : OscController E V) (jscmd : E) : JsCall V where
  funcname := (s.jscmd jscmd).name
  argv := ((s.jscmd jscmd).argv.getD []).take (s.jscmd jscmd).argc

/-- `osc_command_handler`, append the command. -/
def append (s : OscController E V) (jscmd : E) : OscController E V :=
  { s with
    heap := Linklist.append s.heap .pending jscmd
    server := .idle
    queued := s.queued ++ [s.callOf jscmd] }

/-- `poll` and `dispatch`, the next step. -/
def engineStep (s : OscController E V) : Option (OscController E V) :=
  match s.engine with
  | .poll =>
    some { s with engine := if s.heap.length .pending > 0 then .first else .poll }
  | .first => some
    { s with
      engine := match s.heap.first .pending with
        | some jscmd => .call jscmd
        | none => .poll }
  | .call jscmd =>
    if s.live jscmd ∧ (s.jscmd jscmd).argv.isSome then
      some { s with executed := s.executed ++ [s.callOf jscmd], engine := .free jscmd }
    else none
  | .free jscmd =>
    if s.live jscmd then
      some
        { s with
          jscmd := update s.jscmd jscmd { s.jscmd jscmd with argv := none }
          engine := .rem jscmd }
    else none
  | .rem jscmd =>
    (Linklist.rem s.heap .pending 1).map fun heap =>
      { s with heap := heap, engine := .delete jscmd }
  | .delete jscmd =>
    if s.live jscmd then
      some
        { s with
          heap := Entry.rem s.heap jscmd
          live := update s.live jscmd false
          engine := .first }
    else none

/-- Methods were registered, each with a new entry. -/
inductive Registered : List (E × OscMethod) → OscController E V → Prop
  | init (command : E → OscCommand) (jscmd : E → JsCommand V) : Registered [] (init command jscmd)
  | add {methods : List (E × OscMethod)} {s : OscController E V} {cmd : E} (method : OscMethod) :
      Registered methods s → s.live cmd = false →
      Registered (methods ++ [(cmd, method)]) (s.add_method cmd method)

end OscController

/-- The steps: the server handles a message, for which `jscmd` is allocated if need be, or
appends a command; the engine goes on. -/
inductive OscStep (E V : Type*)
  | handle (m : OscMessage V) (jscmd : E)
  | append
  | engine

namespace OscController

variable {E V : Type*} [DecidableEq E]

/-- A step of one of the threads. -/
def step (s : OscController E V) : OscStep E V → Option (OscController E V)
  | .handle m jscmd =>
    match s.server with
    | .idle => s.handle m jscmd
    | .append _ => none
  | .append =>
    match s.server with
    | .idle => none
    | .append jscmd => some (s.append jscmd)
  | .engine => s.engineStep

/-- The runs after the registration of some methods. -/
def system (methods : List (E × OscMethod)) : System (OscController E V) (OscStep E V) :=
  System.ofFun (Registered methods) step

/-! ### What the methods answer -/

/-- The method of a path. -/
def methodOf (methods : List (E × OscMethod)) (path : CString) : Option OscMethod :=
  (methods.map Prod.snd).find? fun method => (method.osc_cmd.take 255).sameNoCase path

/-- The call made for a message, if one is. -/
def answer (methods : List (E × OscMethod)) (m : OscMessage V) : Option (JsCall V) :=
  (methodOf methods m.path).bind fun method =>
    if m.types = method.proto_cmd then
      some
        { funcname := method.js_cmd.take 255
          argv := List.zipWith JsVal.ofArg m.types.chars m.argv }
    else none

/-! ### The invariant -/

/-- The entries of the two lists. -/
def orders (methods : List (E × OscMethod)) (q : List E) : OscList → List E
  | .handled => methods.map Prod.fst
  | .pending => q

/-- The entries of the pending list whose calls are still to be made. -/
def waiting (s : OscController E V) (q : List E) : List E :=
  match s.engine with
  | .free _ | .rem _ => q.tail
  | _ => q

/-- The call that the server is about to append. -/
def inFlight (s : OscController E V) : List (JsCall V) :=
  match s.server with
  | .idle => []
  | .append jscmd => [s.callOf jscmd]

/-- The entry that the engine is at is the first one, or was removed. -/
def EngineAt (s : OscController E V) (q : List E) : Prop :=
  match s.engine with
  | .poll | .first => True
  | .call jscmd | .free jscmd | .rem jscmd => q.head? = some jscmd
  | .delete jscmd => s.live jscmd = true ∧ s.heap.list jscmd = none

/-- The entry that the server is to append is complete and in no list. -/
def ServerAt (s : OscController E V) : Prop :=
  match s.server with
  | .idle => True
  | .append jscmd => s.live jscmd = true ∧ (s.jscmd jscmd).argv ≠ none ∧
      s.heap.list jscmd = none ∧ s.engine ≠ .delete jscmd

/-- What holds in every state, `q` being the entries of the pending list. -/
structure Inv (methods : List (E × OscMethod)) (s : OscController E V) (q : List E) : Prop where
  shape : Shape s.heap (orders methods q)
  command : ∀ p ∈ methods, s.live p.1 = true ∧ s.command p.1 = p.2.command
  live : ∀ e ∈ q, s.live e = true
  argv : ∀ e ∈ waiting s q, (s.jscmd e).argv ≠ none
  engine : EngineAt s q
  server : ServerAt s
  /-- The calls queued are the answers to the messages. -/
  law : s.received.filterMap (answer methods) = s.queued ++ s.inFlight
  /-- The calls not executed are those that wait. -/
  order : s.queued = s.executed ++ (waiting s q).map s.callOf

variable {methods : List (E × OscMethod)} {s t : OscController E V} {q : List E} {e : E}

/-- Appending a new entry. -/
theorem shape_append {h : Heap E OscList} {order : OscList → List E} (hs : Shape h order)
    (l : OscList) (he : ∀ l, e ∉ order l) :
    Shape (Linklist.append h l e) (update order l (order l ++ [e])) := by
  have herase : (fun l => (order l).erase e) = order :=
    funext fun l => List.erase_of_not_mem (he l)
  have := hs.append l e
  rwa [herase, List.erase_of_not_mem (he l)] at this

omit [DecidableEq E] in
theorem orders_append (methods : List (E × OscMethod)) (q : List E) :
    update (orders methods q) .pending (orders methods q .pending ++ [e]) =
      orders methods (q ++ [e]) := by
  funext l
  cases l <;> rfl

omit [DecidableEq E] in
/-- An entry that was not allocated is in no list. -/
theorem Inv.fresh (h : Inv methods s q) (he : s.live e = false) (l : OscList) :
    e ∉ orders methods q l := by
  cases l with
  | handled =>
      simp only [orders, List.mem_map, not_exists, not_and]
      rintro p hp rfl
      rw [(h.command p hp).1] at he
      cases he
  | pending =>
      intro hmem
      rw [h.live e hmem] at he
      cases he

/-- The state after the registrations. -/
theorem inv_registered (h : Registered methods s) :
    Inv methods s [] ∧ s.server = .idle ∧ s.engine = .poll ∧ s.received = [] ∧
      s.queued = [] ∧ s.executed = [] := by
  induction h with
  | init command jscmd =>
      have hshape : Shape (Heap.fresh : Heap E OscList)
          (orders ([] : List (E × OscMethod)) []) := by
        have horder : orders ([] : List (E × OscMethod)) [] = fun _ => [] := by
          funext l
          cases l <;> rfl
        rw [horder]
        exact Shape.fresh
      exact ⟨⟨hshape, by simp, by simp, by simp [waiting, init], trivial, trivial, rfl, rfl⟩,
        rfl, rfl, rfl, rfl, rfl⟩
  | @add methods s cmd method hr hlive ih =>
      obtain ⟨hi, hserver, hengine, hrec, hq, hx⟩ := ih
      have hnew := hi.fresh hlive
      have hshape := shape_append (hi.shape.construct hnew) .handled hnew
      have horder : update (orders methods []) .handled (orders methods [] .handled ++ [cmd]) =
          orders (methods ++ [(cmd, method)]) [] := by
        funext l
        cases l <;> simp [orders]
      rw [horder] at hshape
      refine ⟨⟨hshape, fun p hp => ?_, by simp, ?_, ?_, ?_, ?_, ?_⟩, hserver, hengine, hrec, hq, hx⟩
      · obtain hp | hp := List.mem_append.mp hp
        · have hne : p.1 ≠ cmd := by
            intro heq
            rw [← heq, (hi.command p hp).1] at hlive
            cases hlive
          simp only [add_method, Function.update_of_ne hne]
          exact hi.command p hp
        · cases List.mem_singleton.mp hp
          simp [add_method]
      · simp [waiting, add_method, hengine]
      · simp [EngineAt, add_method, hengine]
      · simp [ServerAt, add_method, hserver]
      · simp [add_method, inFlight, hserver, hrec, hq]
      · simp [add_method, waiting, hengine, hq, hx]

/-- Where `strcmp` stays inside of the array it compares the whole strings. -/
theorem strcmp128_eq {types proto_cmd : CString} {b : Bool}
    (h : strcmp128 types (proto_cmd.take 128) = some b) : b = true ↔ types = proto_cmd := by
  simp only [strcmp128] at h
  split at h
  · rename_i hlt
    have hlen : proto_cmd.strlen ≤ 128 := by
      simp only [CString.strlen, CString.take, List.length_take] at hlt ⊢
      omega
    rw [CString.take_of_le hlen, Option.some.injEq] at h
    rw [← h]
    exact decide_eq_true_iff
  · split at h
    · cases h
    · rename_i hne
      cases h
      refine iff_of_false Bool.false_ne_true ?_
      rintro rfl
      exact hne rfl

omit [DecidableEq E] in
/-- The search in the list finds the method of the path. -/
theorem Inv.search (h : Inv methods s q) (path : CString) :
    ∃ found : Option (E × OscMethod),
      (Linklist.search s.heap (fun e => (s.command e).name) .handled path).map Prod.fst =
        some (found.map Prod.fst) ∧
      methodOf methods path = found.map Prod.snd ∧ ∀ p, found = some p → p ∈ methods := by
  refine ⟨methods.find? fun p => (p.2.osc_cmd.take 255).sameNoCase path, ?_, ?_, fun p hp =>
    List.mem_of_find?_eq_some hp⟩
  · rw [(h.shape.linked .handled).search_name]
    simp only [orders, List.find?_map]
    rw [List.find?_congr fun p hp => ?_]
    have hname : (s.command p.1).name = p.2.osc_cmd.take 255 := by
      rw [(h.command p hp).2]
      rfl
    simp only [Function.comp_apply, hname]
  · simp only [methodOf, List.find?_map]
    rfl

omit [DecidableEq E] in
/-- The call that a new command stands for. -/
theorem callOf_makeCommand (cmd : E) (method : OscMethod) (m : OscMessage V)
    (h : s.jscmd cmd = makeCommand method.command m) :
    s.callOf cmd =
      { funcname := method.js_cmd.take 255
        argv := List.zipWith JsVal.ofArg m.types.chars m.argv } := by
  have hname : (method.js_cmd.take 512).take 255 = method.js_cmd.take 255 := by
    apply CString.ext
    simp [CString.take, List.take_take]
  have hargs : (List.zipWith JsVal.ofArg m.types.chars m.argv).take m.argv.length =
      List.zipWith JsVal.ofArg m.types.chars m.argv :=
    List.take_of_length_le (by rw [List.length_zipWith]; exact Nat.min_le_right _ _)
  simp only [callOf, h, makeCommand, OscMethod.command, hname, Option.getD_some, hargs]

/-- **What handling a message does.** Either it is not answered, or a new entry is made of
it. -/
theorem Inv.handle_cases (h : Inv methods s q) {m : OscMessage V}
    (ht : s.handle m e = some t) :
    (answer methods m = none ∧ t = { s with received := s.received ++ [m] }) ∨
    ∃ method : OscMethod, s.live e = false ∧
      answer methods m = some
        { funcname := method.js_cmd.take 255
          argv := List.zipWith JsVal.ofArg m.types.chars m.argv } ∧
      t = { s with
            received := s.received ++ [m]
            heap := Entry.construct s.heap e
            jscmd := update s.jscmd e (makeCommand method.command m)
            live := update s.live e true
            server := .append e } := by
  obtain ⟨found, hsearch, hmethod, hmem⟩ := h.search m.path
  obtain ⟨⟨ptr, idx⟩, hptr, hfst⟩ := Option.map_eq_some_iff.mp hsearch
  simp only [handle, hptr, Option.bind_some] at ht
  cases found with
  | none =>
      obtain rfl : ptr = none := hfst
      refine .inl ⟨by simp [answer, hmethod], ?_⟩
      exact (Option.some.inj ht).symm
  | some p =>
      obtain ⟨cmd, method⟩ := p
      obtain rfl : ptr = some cmd := hfst
      have hcommand : s.command cmd = method.command := (h.command _ (hmem _ rfl)).2
      simp only [hcommand] at ht
      obtain ⟨b, hb, ht⟩ := Option.bind_eq_some_iff.mp ht
      have hiff := strcmp128_eq hb
      cases b with
      | false =>
          have hne : ¬ m.types = method.proto_cmd := fun heq => by simpa using hiff.mpr heq
          refine .inl ⟨by simp [answer, hmethod, hne], ?_⟩
          exact (Option.some.inj ht).symm
      | true =>
          have heq : m.types = method.proto_cmd := hiff.mp rfl
          simp only [] at ht
          split at ht
          · cases ht
          · rename_i hlive
            refine .inr ⟨method, by simpa using hlive, by simp [answer, hmethod, heq], ?_⟩
            exact (Option.some.inj ht).symm

omit [DecidableEq E] in
/-- The calls of entries that were there before do not change with a new one. -/
theorem map_callOf_congr {es : List E} (h : ∀ e ∈ es, t.jscmd e = s.jscmd e) :
    es.map t.callOf = es.map s.callOf := by
  refine List.map_congr_left fun e he => ?_
  simp only [callOf, h e he]

omit [DecidableEq E] in
theorem waiting_subset (s : OscController E V) (q : List E) : waiting s q ⊆ q := by
  simp only [waiting]
  split
  · exact (List.tail_sublist q).subset
  · exact (List.tail_sublist q).subset
  · exact List.Subset.refl q

/-- The server handles a message. -/
theorem Inv.handle (h : Inv methods s q) (hidle : s.server = .idle) {m : OscMessage V}
    (ht : s.handle m e = some t) : Inv methods t q := by
  have hin : s.inFlight = [] := by simp [inFlight, hidle]
  have hlaw := h.law
  rw [hin, List.append_nil] at hlaw
  obtain ⟨ha, rfl⟩ | ⟨method, hfresh, ha, rfl⟩ := h.handle_cases ht
  · refine ⟨h.shape, h.command, h.live, h.argv, h.engine, h.server, ?_, h.order⟩
    have hin' : inFlight { s with received := s.received ++ [m] } = [] := hin
    simp only [List.filterMap_append, List.filterMap_cons, List.filterMap_nil, ha, hlaw, hin']
  · have hnew := h.fresh hfresh
    -- what was allocated before is another entry
    have hne : ∀ e', s.live e' = true → e' ≠ e := by
      rintro e' he' rfl
      rw [hfresh] at he'
      cases he'
    have hold : ∀ e' ∈ waiting s q, update s.jscmd e (makeCommand method.command m) e' =
        s.jscmd e' := fun e' he' =>
      Function.update_of_ne (hne e' (h.live e' (waiting_subset s q he'))) _ _
    refine ⟨h.shape.construct hnew, fun p hp => ?_, fun e' he' => ?_, fun e' he' => ?_, ?_, ?_,
      ?_, ?_⟩
    · obtain ⟨hl, hc⟩ := h.command p hp
      simp only [Function.update_of_ne (hne p.1 hl)]
      exact ⟨hl, hc⟩
    · simp only [Function.update_of_ne (hne e' (h.live e' he'))]
      exact h.live e' he'
    · simp only [hold e' he']
      exact h.argv e' he'
    · have hat := h.engine
      simp only [EngineAt] at hat ⊢
      split at hat
      all_goals try exact hat
      rename_i jscmd _
      simp only [Entry.construct, Function.update_of_ne (hne jscmd hat.1)]
      exact hat
    · refine ⟨by simp, by simp [makeCommand], by simp [Entry.construct], fun heng => ?_⟩
      have hat := h.engine
      have heng' : s.engine = .delete e := heng
      simp only [EngineAt, heng'] at hat
      exact hne e hat.1 rfl
    · have hcall : ∀ u : OscController E V,
          u.jscmd = update s.jscmd e (makeCommand method.command m) → u.callOf e =
            { funcname := method.js_cmd.take 255
              argv := List.zipWith JsVal.ofArg m.types.chars m.argv } :=
        fun u hu => callOf_makeCommand e method m (by rw [hu, Function.update_self])
      simp only [List.filterMap_append, List.filterMap_cons, List.filterMap_nil, ha, hlaw, inFlight]
      rw [hcall _ rfl]
    · have hsame := map_callOf_congr (s := s) (t := { s with
          received := s.received ++ [m], heap := Entry.construct s.heap e,
          jscmd := update s.jscmd e (makeCommand method.command m),
          live := update s.live e true, server := .append e }) hold
      exact h.order.trans (congrArg _ hsame.symm)

omit [DecidableEq E] in
/-- The entries in no list are those in none of the sequences. -/
theorem list_eq_none_iff {h : Heap E OscList} {order : OscList → List E} (hs : Shape h order) :
    h.list e = none ↔ ∀ l, e ∉ order l := by
  refine ⟨fun he l => hs.notMem_of_free he, fun he => ?_⟩
  cases hl : h.list e with
  | none => rfl
  | some l => exact absurd ((hs.list e l).mp hl) (he l)

omit [DecidableEq E] in
/-- An entry in no list is none of the pending ones. -/
theorem Inv.ne_of_mem (h : Inv methods s q) (he : s.heap.list e = none) {e' : E} (hq : e' ∈ q) :
    e' ≠ e := by
  rintro rfl
  exact (list_eq_none_iff h.shape).mp he .pending hq

/-- The server appends its command. -/
theorem Inv.append (h : Inv methods s q) (hserver : s.server = .append e) :
    Inv methods (s.append e) (q ++ [e]) := by
  have hs := h.server
  simp only [ServerAt, hserver] at hs
  obtain ⟨hlive, hargv, hfree, hdel⟩ := hs
  have hnot := (list_eq_none_iff h.shape).mp hfree
  have hshape := shape_append h.shape .pending hnot
  rw [orders_append] at hshape
  have hat := h.engine
  have hwait : waiting (s.append e) (q ++ [e]) = waiting s q ++ [e] := by
    simp only [EngineAt] at hat
    simp only [waiting, OscController.append]
    cases heng : s.engine <;> simp only [heng] at hat ⊢
    all_goals
      obtain ⟨q', rfl⟩ : ∃ q', q = _ :: q' := List.head?_eq_some_iff.mp hat
      rfl
  refine ⟨hshape, h.command, fun e' he' => ?_, fun e' he' => ?_, ?_, trivial, ?_, ?_⟩
  · obtain he' | he' := List.mem_append.mp he'
    · exact h.live e' he'
    · rw [List.mem_singleton.mp he']
      exact hlive
  · rw [hwait] at he'
    obtain he' | he' := List.mem_append.mp he'
    · exact h.argv e' he'
    · rw [List.mem_singleton.mp he']
      exact hargv
  · simp only [EngineAt, OscController.append] at hat ⊢
    cases heng : s.engine with
    | poll => trivial
    | first => trivial
    | call jscmd | free jscmd | rem jscmd =>
        simp only [heng] at hat ⊢
        rw [List.head?_append, hat]
        rfl
    | delete jscmd =>
        simp only [heng] at hat ⊢
        refine ⟨hat.1, (list_eq_none_iff hshape).mpr fun l => ?_⟩
        have hnot' := (list_eq_none_iff h.shape).mp hat.2 l
        cases l with
        | handled => exact hnot'
        | pending =>
            simp only [orders, List.mem_append, List.mem_singleton, not_or] at hnot' ⊢
            refine ⟨hnot', ?_⟩
            rintro rfl
            exact hdel heng
  · have hin : s.inFlight = [s.callOf e] := by simp [inFlight, hserver]
    have hlaw := h.law
    rw [hin] at hlaw
    simpa [OscController.append, inFlight] using hlaw
  · rw [hwait, List.map_append, ← List.append_assoc]
    exact congrArg (· ++ [s.callOf e]) h.order

/-! ### The engine -/

omit [DecidableEq E] in
/-- The calls that wait, by the list that the position of the engine makes of `q`. -/
theorem Inv.waits (h : Inv methods s q) {w : List E} (hw : waiting s q = w) :
    (∀ e ∈ w, (s.jscmd e).argv ≠ none) ∧ s.queued = s.executed ++ w.map s.callOf := by
  subst hw
  exact ⟨h.argv, h.order⟩

omit [DecidableEq E] in
/-- What the engine does leaves the server's command complete and in no list. -/
theorem Inv.keep_server (h : Inv methods s q) (hserver : t.server = s.server)
    (hkeep : ∀ jscmd, s.server = .append jscmd → s.live jscmd = true →
      (s.jscmd jscmd).argv ≠ none → s.heap.list jscmd = none → s.engine ≠ .delete jscmd →
      t.live jscmd = true ∧ (t.jscmd jscmd).argv ≠ none ∧ t.heap.list jscmd = none ∧
        t.engine ≠ .delete jscmd) : ServerAt t := by
  have hs := h.server
  simp only [ServerAt, hserver] at hs ⊢
  split at hs
  · trivial
  · rename_i jscmd hat
    exact hkeep jscmd hat hs.1 hs.2.1 hs.2.2.1 hs.2.2.2

omit [DecidableEq E] in
/-- The engine has nothing to do, or begins. -/
theorem Inv.goto (h : Inv methods s q) {engine : OscEngine E}
    (hwait : waiting { s with engine := engine } q = waiting s q)
    (hat : EngineAt { s with engine := engine } q)
    (hdel : ∀ jscmd, s.server = .append jscmd → engine ≠ .delete jscmd) :
    Inv methods { s with engine := engine } q := by
  refine ⟨h.shape, h.command, h.live, ?_, hat, ?_, h.law, ?_⟩
  · rw [hwait]
    exact h.argv
  · exact h.keep_server rfl fun jscmd hserver hl ha hf _ => ⟨hl, ha, hf, hdel jscmd hserver⟩
  · rw [hwait]
    exact h.order

omit [DecidableEq E] in
/-- The server's command is none of the entries in a list. -/
theorem Inv.server_ne (h : Inv methods s q) {jscmd : E} (hserver : s.server = .append jscmd)
    (he : e ∈ q) : jscmd ≠ e := by
  have hs := h.server
  simp only [ServerAt, hserver] at hs
  exact (h.ne_of_mem hs.2.2.1 he).symm

omit [DecidableEq E] in
/-- The engine makes a call, whose memory is still there. -/
theorem Inv.call {q' : List E} (h : Inv methods s (e :: q')) (heng : s.engine = .call e) :
    s.live e = true ∧ (s.jscmd e).argv.isSome = true ∧
      Inv methods { s with executed := s.executed ++ [s.callOf e], engine := .free e }
        (e :: q') := by
  have hwait : waiting s (e :: q') = e :: q' := by simp [waiting, heng]
  obtain ⟨hargv, horder⟩ := h.waits hwait
  refine ⟨h.live e List.mem_cons_self, Option.isSome_iff_ne_none.mpr (hargv e List.mem_cons_self),
    h.shape, h.command, h.live, fun e' he' => ?_, rfl, ?_, h.law, ?_⟩
  · exact hargv e' (List.mem_cons_of_mem _ he')
  · exact h.keep_server rfl fun _ _ hl ha hf _ => ⟨hl, ha, hf, by simp⟩
  · rw [List.map_cons] at horder
    change s.queued = s.executed ++ [s.callOf e] ++ q'.map s.callOf
    rw [horder, List.append_assoc]
    rfl

/-- The engine frees the arguments of the call it made. -/
theorem Inv.free {q' : List E} (h : Inv methods s (e :: q')) (heng : s.engine = .free e) :
    Inv methods
      { s with
        jscmd := update s.jscmd e { s.jscmd e with argv := none }
        engine := .rem e } (e :: q') := by
  have hwait : waiting s (e :: q') = q' := by simp [waiting, heng]
  have hnd : (e :: q').Nodup := h.shape.nodup .pending
  have hold : ∀ e' ≠ e, update s.jscmd e { s.jscmd e with argv := none } e' = s.jscmd e' :=
    fun e' he' => Function.update_of_ne he' _ _
  have hrest : ∀ e' ∈ q', e' ≠ e := fun e' he' =>
    ne_of_mem_of_not_mem he' (List.nodup_cons.mp hnd).1
  obtain ⟨hargv, horder⟩ := h.waits hwait
  refine ⟨h.shape, h.command, h.live, fun e' he' => ?_, rfl, ?_, ?_, ?_⟩
  · simp only [hold e' (hrest e' he')]
    exact hargv e' he'
  · refine h.keep_server rfl fun jscmd hserver hl ha hf _ => ?_
    simp only [hold jscmd (h.server_ne hserver List.mem_cons_self)]
    exact ⟨hl, ha, hf, by simp⟩
  · refine h.law.trans (congrArg _ ?_)
    simp only [inFlight]
    cases hserver : s.server with
    | idle => rfl
    | append jscmd =>
        simp only [callOf, hold jscmd (h.server_ne hserver List.mem_cons_self)]
  · refine horder.trans (congrArg _ (map_callOf_congr fun e' he' => ?_).symm)
    exact hold e' (hrest e' he')

/-- The engine takes the command out of the list. -/
theorem Inv.rem {q' : List E} (h : Inv methods s (e :: q')) (heng : s.engine = .rem e) :
    Linklist.rem s.heap .pending 1 = some (Entry.rem s.heap e) ∧
      Inv methods { s with heap := Entry.rem s.heap e, engine := .delete e } q' := by
  have hwait : waiting s (e :: q') = q' := by simp [waiting, heng]
  have hlist : s.heap.list e = some .pending := (h.shape.list e .pending).mpr List.mem_cons_self
  have hshape : Shape (Entry.rem s.heap e) (orders methods q') := by
    have horders : (fun l => (orders methods (e :: q') l).erase e) = orders methods q' := by
      funext l
      cases l with
      | handled =>
          refine List.erase_of_not_mem fun hmem => ?_
          have := (h.shape.list e .handled).mpr hmem
          rw [hlist] at this
          cases this
      | pending => exact List.erase_cons_head e q'
    rw [← horders]
    exact h.shape.rem e
  obtain ⟨hargv, horder⟩ := h.waits hwait
  refine ⟨?_, hshape, h.command, fun e' he' => h.live e' (List.mem_cons_of_mem _ he'), hargv,
    ⟨h.live e List.mem_cons_self, Entry.rem_list_self _ _⟩, ?_, h.law, horder⟩
  · rw [Linklist.rem, h.shape.pick]
    rfl
  · refine h.keep_server rfl fun jscmd hserver hl ha hf _ => ?_
    have hne := h.server_ne hserver List.mem_cons_self
    refine ⟨hl, ha, (list_eq_none_iff hshape).mpr fun l hmem => ?_, by simpa using hne.symm⟩
    refine (list_eq_none_iff h.shape).mp hf l ?_
    cases l with
    | handled => exact hmem
    | pending => exact List.mem_cons_of_mem _ hmem

/-- The engine deletes the command, which is in no list any more. -/
theorem Inv.delete (h : Inv methods s q) (heng : s.engine = .delete e) :
    s.live e = true ∧
      Inv methods
        { s with heap := Entry.rem s.heap e, live := update s.live e false, engine := .first }
        q := by
  have hat := h.engine
  simp only [EngineAt, heng] at hat
  obtain ⟨hlive, hfree⟩ := hat
  have hheap : Entry.rem s.heap e = s.heap := by simp [Entry.rem, hfree]
  have hnot := (list_eq_none_iff h.shape).mp hfree
  have hwait : waiting s q = q := by simp [waiting, heng]
  obtain ⟨hargv, horder⟩ := h.waits hwait
  rw [hheap]
  refine ⟨hlive, h.shape, fun p hp => ?_, fun e' he' => ?_, hargv, trivial, ?_, h.law, horder⟩
  · have hne : p.1 ≠ e := by
      rintro rfl
      exact hnot .handled (List.mem_map_of_mem hp)
    simp only [Function.update_of_ne hne]
    exact h.command p hp
  · simp only [Function.update_of_ne (h.ne_of_mem hfree he')]
    exact h.live e' he'
  · refine h.keep_server rfl fun jscmd _ hl ha hf hdel => ?_
    have hne : jscmd ≠ e := by
      rintro rfl
      exact hdel heng
    simp only [Function.update_of_ne hne]
    exact ⟨hl, ha, hf, by simp⟩

/-- The steps of the engine until no call waits, at most. -/
def work (s : OscController E V) (q : List E) : ℕ :=
  match s.engine with
  | .poll => 5 * q.length + 2
  | .first => 5 * q.length + 1
  | .call _ => 5 * q.length
  | .free _ => 5 * q.tail.length + 4
  | .rem _ => 5 * q.tail.length + 3
  | .delete _ => 5 * q.length + 2

/-- **What a step of the engine does.** There is one, since the engine meets no freed memory,
and it brings the engine closer to the end of the list. -/
theorem Inv.engineStep (h : Inv methods s q) :
    ∃ t q', s.engineStep = some t ∧ Inv methods t q' ∧ t.queued = s.queued ∧
      t.server = s.server ∧ (work t q' < work s q ∨ waiting s q = []) := by
  have hat := h.engine
  cases heng : s.engine with
  | poll =>
      have hlen : s.heap.length .pending = q.length := h.shape.length .pending
      have hwait : waiting s q = q := by simp [waiting, heng]
      cases q with
      | nil =>
          refine ⟨{ s with engine := .poll }, [], ?_, h.goto ?_ trivial (by simp), rfl, rfl,
            .inr hwait⟩
          · simp [OscController.engineStep, heng, hlen]
          · simp [waiting, heng]
      | cons e q' =>
          refine ⟨{ s with engine := .first }, e :: q', ?_, h.goto ?_ trivial (by simp), rfl, rfl,
            .inl ?_⟩
          · simp [OscController.engineStep, heng, hlen]
          · simp [waiting, heng]
          · simp only [work, heng]
            omega
  | first =>
      have hfirst : s.heap.first .pending = q.head? := (h.shape.strand .pending).first
      have hwait : waiting s q = q := by simp [waiting, heng]
      cases q with
      | nil =>
          refine ⟨{ s with engine := .poll }, [], ?_, h.goto ?_ trivial (by simp), rfl, rfl,
            .inr hwait⟩
          · simp [OscController.engineStep, heng, hfirst]
          · simp [waiting, heng]
      | cons e q' =>
          refine ⟨{ s with engine := .call e }, e :: q', ?_, h.goto ?_ rfl (by simp), rfl, rfl,
            .inl ?_⟩
          · simp [OscController.engineStep, heng, hfirst]
          · simp [waiting, heng]
          · simp only [work, heng]
            omega
  | call e =>
      simp only [EngineAt, heng] at hat
      obtain ⟨q', rfl⟩ := List.head?_eq_some_iff.mp hat
      obtain ⟨hlive, hargv, hinv⟩ := h.call heng
      refine ⟨_, _, ?_, hinv, rfl, rfl, .inl ?_⟩
      · simp only [OscController.engineStep, heng, hlive, hargv, and_self, if_true]
      · simp only [work, heng, List.tail_cons, List.length_cons]
        omega
  | free e =>
      simp only [EngineAt, heng] at hat
      obtain ⟨q', rfl⟩ := List.head?_eq_some_iff.mp hat
      have hlive := h.live e List.mem_cons_self
      refine ⟨_, _, ?_, h.free heng, rfl, rfl, .inl ?_⟩
      · simp only [OscController.engineStep, heng, hlive, if_true]
      · simp only [work, heng]
        omega
  | rem e =>
      simp only [EngineAt, heng] at hat
      obtain ⟨q', rfl⟩ := List.head?_eq_some_iff.mp hat
      obtain ⟨hrem, hinv⟩ := h.rem heng
      refine ⟨_, _, ?_, hinv, rfl, rfl, .inl ?_⟩
      · simp only [OscController.engineStep, heng, hrem, Option.map_some]
      · simp only [work, heng, List.tail_cons]
        omega
  | delete e =>
      obtain ⟨hlive, hinv⟩ := h.delete heng
      refine ⟨_, _, ?_, hinv, rfl, rfl, .inl ?_⟩
      · simp only [OscController.engineStep, heng, hlive, if_true]
      · simp only [work, heng]
        omega

/-! ### Runs -/

/-- A step of one of the threads keeps the invariant. -/
theorem Inv.step (h : Inv methods s q) {a : OscStep E V} (ht : s.step a = some t) :
    ∃ q', Inv methods t q' := by
  cases a with
  | handle m jscmd =>
      simp only [OscController.step] at ht
      split at ht
      · rename_i hidle
        exact ⟨q, h.handle hidle ht⟩
      · cases ht
  | append =>
      simp only [OscController.step] at ht
      split at ht
      · cases ht
      · rename_i jscmd hserver
        obtain rfl := Option.some.inj ht
        exact ⟨q ++ [jscmd], h.append hserver⟩
  | engine =>
      obtain ⟨u, q', hu, hinv, -⟩ := h.engineStep
      obtain rfl := Option.some.inj (hu.symm.trans ht)
      exact ⟨q', hinv⟩

/-- The invariant holds in every state of a run. -/
theorem inv_reachable (h : Reachable (system methods) s) : ∃ q, Inv methods s q :=
  Invariant.holds (I := fun s => ∃ q, Inv methods s q)
    ⟨fun _ h0 => ⟨[], (inv_registered h0).1⟩, fun _ _ _ ⟨_, hi⟩ hst => hi.step hst⟩ h

/-- The engine on its own gets through the list. -/
theorem Inv.drain (h : Inv methods s q) :
    ∃ n t, exec OscController.step s (List.replicate n .engine) = some t ∧
      t.executed = s.queued := by
  induction hw : work s q using Nat.strong_induction_on generalizing s q with
  | _ w ih =>
      obtain ⟨t, q', ht, hinv, hqueued, -, hlt | hnil⟩ := h.engineStep
      · obtain ⟨n, u, hu, hexec⟩ := ih (work t q') (hw ▸ hlt) hinv rfl
        refine ⟨n + 1, u, ?_, hexec.trans hqueued⟩
        simp only [List.replicate_succ, exec, OscController.step, ht, Option.bind_some]
        exact hu
      · refine ⟨0, s, rfl, ?_⟩
        have horder := h.order
        rw [hnil, List.map_nil, List.append_nil] at horder
        exact horder.symm

omit [DecidableEq E] in
/-- A call has one argument per type. -/
theorem length_argv_answer {m : OscMessage V} {call : JsCall V}
    (h : answer methods m = some call) : call.argv.length = m.types.strlen := by
  obtain ⟨method, -, h⟩ := Option.bind_eq_some_iff.mp h
  split at h
  · cases h
    simp only [List.length_zipWith, m.argc]
    exact Nat.min_self _
  · cases h

/-- `/a` with an integer, and `/a` with a string. -/
def twoMethods : List (ℕ × OscMethod) :=
  [(0, ⟨.literal ['/', 'a'], .literal ['i'], .literal ['f']⟩),
    (1, ⟨.literal ['/', 'a'], .literal ['s'], .literal ['g']⟩)]

/-- Both are registered. -/
def registered : OscController ℕ ℕ :=
  ((init (fun _ => ⟨.literal [], .literal [], .literal []⟩)
    fun _ => ⟨.literal [], 0, none⟩).add_method 0
      ⟨.literal ['/', 'a'], .literal ['i'], .literal ['f']⟩).add_method 1
      ⟨.literal ['/', 'a'], .literal ['s'], .literal ['g']⟩

theorem registered_registered : Registered twoMethods registered :=
  .add _ (.add _ (.init _ _) rfl) rfl

/-- A message to `/a` with an integer. -/
def integerMessage : OscMessage ℕ := ⟨.literal ['/', 'a'], .literal ['i'], [7], rfl⟩

/-- A message to `/a` with a string. -/
def stringMessage : OscMessage ℕ := ⟨.literal ['/', 'a'], .literal ['s'], [7], rfl⟩

/-- The message with an integer is handled while the engine makes the call. -/
def integerRun : Option (OscController ℕ ℕ) :=
  exec step registered [.handle integerMessage 2, .append, .engine, .engine, .engine]

end OscController

end FreeJ
