import FreeJ.Loops

/-!
# Polling Events

`SdlController::poll_sdlevents` takes the events that match a mask out of SDL's queue, one after
the other, and puts those that are not handled back at its end. To see when it has gone round it
first puts an event of its own at the end of the queue, a `SDL_USEREVENT`, and stops when it
takes out a `SDL_USEREVENT`. Applications use such events too, and there may be no place for one
more.

SDL is not part of the repository: its queue is a list of at most `MAXEVENTS` events, of which
`SDL_GETEVENT` takes the first that matches a mask.

## Main results

* `fetch_drain`: what the loop makes of events among which there is no `SDL_USEREVENT`.
* `poll_right_iff`: when each event that matches is dispatched once and the others stay.
-/

namespace FreeJ

open Loops

/-- `MAXEVENTS` -/
def MAXEVENTS : ℕ := 128

/-- `SDL_USEREVENT` -/
def SDL_USEREVENT : Fin 32 := 24

/-- `SDL_EVENTMASK` -/
def SDL_EVENTMASK (type : Fin 32) : BitVec 32 := BitVec.twoPow 32 type

/-- An event in the queue: one that was there, or the one that `poll_sdlevents` adds. -/
inductive Event (α : Type*)
  | given (type : Fin 32) (content : α)
  | user_event

variable {α : Type*}

def Event.type : Event α → Fin 32
  | given type _ => type
  | user_event => SDL_USEREVENT

/-- The event is one that the mask is for. -/
def Event.matches (mask : BitVec 32) (e : Event α) : Bool := mask.getLsbD e.type

/-- `SDL_PeepEvents` with `SDL_ADDEVENT` -/
def addEvent (e : Event α) (queue : List (Event α)) : List (Event α) :=
  if queue.length < MAXEVENTS then queue ++ [e] else queue

/-- `SDL_PeepEvents` with `SDL_GETEVENT` -/
def getEvent (mask : BitVec 32) (queue : List (Event α)) :
    Option (Event α × List (Event α)) :=
  (queue.find? (Event.matches mask)).map fun e => (e, queue.eraseP (Event.matches mask))

/-- A call of `poll_sdlevents`: the queue, the field `event`, the events that were dispatched,
and what the last `SDL_PeepEvents` returned. -/
structure Poll (α : Type*) where
  queue : List (Event α)
  event : Event α
  dispatched : List (Event α)
  res : Bool

namespace Poll

variable (dispatch : List (Event α) → Event α → ℤ) (eventmask : BitVec 32)

/-- Get an event that matches or a `SDL_USEREVENT`. -/
def get (s : Poll α) : Poll α :=
  match getEvent (eventmask ||| SDL_EVENTMASK SDL_USEREVENT) s.queue with
  | none => { s with res := false }
  | some (event, queue) => { s with queue := queue, event := event, res := true }

/-- Get the next event, and stop at a `SDL_USEREVENT`. -/
def fetch (s : Poll α) : Poll α :=
  let s := s.get eventmask
  if s.event.type = SDL_USEREVENT then { s with res := false } else s

/-- Dispatch the event, which may depend on those before it, and add it again when it is not
handled. -/
def handle (s : Poll α) : Poll α :=
  { s with
    queue := if dispatch s.dispatched s.event = 0 then addEvent s.event s.queue else s.queue
    dispatched := s.dispatched ++ [s.event] }

/-- The body of the loop. -/
def round (s : Poll α) : Poll α := (s.handle dispatch).fetch eventmask

/-- `poll_sdlevents`, for less than `fuel` rounds. -/
def poll_sdlevents (fuel : ℕ) (s : Poll α) : Option (Poll α) :=
  match s.queue.find? (Event.matches eventmask) with
  | none => some s
  | some event =>
    let s := { s with event := event, queue := addEvent .user_event s.queue }
    whileDo (fun _ => round dispatch eventmask) (fun s => s.res = true) fuel 0 (s.get eventmask)

/-- The loop ends in `t`, when it is entered in `s`. -/
def Leads (s t : Poll α) : Prop := Ends (round dispatch eventmask) (fun s => s.res = true) s t

/-- The events of a list that `dispatch` returns 0 for, after others were dispatched. -/
def unhandled : List (Event α) → List (Event α) → List (Event α)
  | _, [] => []
  | before, e :: es =>
    if dispatch before e = 0 then e :: unhandled (before ++ [e]) es
    else unhandled (before ++ [e]) es

/-- Each event that matches was dispatched once, and those that were not handled are there
again; the others are still there, and no event was added. -/
structure Polled (queue : List (Event α)) (t : Poll α) : Prop where
  dispatched : t.dispatched = queue.filter (Event.matches eventmask)
  others : t.queue.filter (fun e => !e.matches eventmask) =
    queue.filter fun e => !e.matches eventmask
  again : t.queue.filter (Event.matches eventmask) =
    unhandled dispatch [] (queue.filter (Event.matches eventmask))
  no_sentinel : .user_event ∉ t.queue

variable {dispatch eventmask} {s t : Poll α} {e : Event α} {mask : BitVec 32}
  {pre post queue : List (Event α)}

/-! ### The queue -/

/-- The first event that matches is taken out. -/
theorem getEvent_append (hpre : ∀ x ∈ pre, x.matches mask = false) (he : e.matches mask = true) :
    getEvent mask (pre ++ e :: post) = some (e, pre ++ post) := by
  have hnone : pre.find? (Event.matches mask) = none := by
    rw [List.find?_eq_none]
    exact fun x hx => by simp [hpre x hx]
  rw [getEvent, List.find?_append, hnone, Option.none_or, List.find?_cons_of_pos he,
    List.eraseP_append_right _ (fun x hx => by simp [hpre x hx]), List.eraseP_cons_of_pos he]
  rfl

theorem getEvent_none (h : ∀ x ∈ queue, x.matches mask = false) : getEvent mask queue = none := by
  have hnone : queue.find? (Event.matches mask) = none := by
    rw [List.find?_eq_none]
    exact fun x hx => by simp [h x hx]
  rw [getEvent, hnone]
  rfl

/-- The mask for which the loop looks. -/
theorem matches_or (e : Event α) :
    e.matches (eventmask ||| SDL_EVENTMASK SDL_USEREVENT) =
      (e.matches eventmask || e.type == SDL_USEREVENT) := by
  have htype : (SDL_USEREVENT.val = e.type.val) ↔ e.type = SDL_USEREVENT := by
    rw [Fin.ext_iff, eq_comm]
  rw [Event.matches, Event.matches, BitVec.getLsbD_or, SDL_EVENTMASK, BitVec.getLsbD_twoPow]
  by_cases h : e.type = SDL_USEREVENT
  · simp [h]
  · have hne : ¬ SDL_USEREVENT.val = e.type.val := mt htype.mp h
    simp [h, hne]

/-- An event that the loop passes over. -/
def Passed (eventmask : BitVec 32) (e : Event α) : Prop :=
  e.matches eventmask = false ∧ e.type ≠ SDL_USEREVENT

theorem Passed.matches_or (h : Passed eventmask e) :
    e.matches (eventmask ||| SDL_EVENTMASK SDL_USEREVENT) = false := by
  rw [Poll.matches_or, h.1]
  simp [h.2]

/-- The first event that is not passed over is taken. -/
theorem get_append (hpre : ∀ x ∈ pre, Passed eventmask x)
    (he : e.matches eventmask = true ∨ e.type = SDL_USEREVENT)
    (hqueue : s.queue = pre ++ e :: post) :
    s.get eventmask = { s with queue := pre ++ post, event := e, res := true } := by
  have hmatch : e.matches (eventmask ||| SDL_EVENTMASK SDL_USEREVENT) = true := by
    rw [matches_or]
    simpa using he
  rw [get, hqueue, getEvent_append (fun x hx => (hpre x hx).matches_or) hmatch]

/-- A `SDL_USEREVENT` stops the loop. -/
theorem fetch_user (hpre : ∀ x ∈ pre, Passed eventmask x) (he : e.type = SDL_USEREVENT)
    (hqueue : s.queue = pre ++ e :: post) :
    s.fetch eventmask = { s with queue := pre ++ post, event := e, res := false } := by
  rw [fetch, get_append hpre (.inr he) hqueue]
  exact if_pos he

theorem fetch_matching (hpre : ∀ x ∈ pre, Passed eventmask x)
    (he : e.matches eventmask = true) (htype : e.type ≠ SDL_USEREVENT)
    (hqueue : s.queue = pre ++ e :: post) :
    s.fetch eventmask = { s with queue := pre ++ post, event := e, res := true } := by
  rw [fetch, get_append hpre (.inl he) hqueue]
  exact if_neg htype

/-- Where all events are passed over, the loop ends. -/
theorem fetch_none (h : ∀ x ∈ s.queue, Passed eventmask x) :
    s.fetch eventmask = { s with res := false } := by
  have hget : s.get eventmask = { s with res := false } := by
    rw [get, getEvent_none fun x hx => (h x hx).matches_or]
  rw [fetch, hget]
  split <;> rfl

/-! ### The loop -/

theorem leads_iff (h : s.res = true) :
    Leads dispatch eventmask s t ↔ Leads dispatch eventmask (round dispatch eventmask s) t :=
  ends_of_again h

theorem leads_end_iff (h : s.res = false) : Leads dispatch eventmask s t ↔ t = s :=
  ends_of_not_again (by rw [h]; exact Bool.false_ne_true)

variable (dispatch) in
theorem unhandled_append (before es fs : List (Event α)) :
    unhandled dispatch before (es ++ fs) =
      unhandled dispatch before es ++ unhandled dispatch (before ++ es) fs := by
  induction es generalizing before with
  | nil => simp [unhandled]
  | cons e es ih =>
      rw [List.cons_append, unhandled, unhandled, ih, List.append_assoc, List.singleton_append]
      split <;> rfl

/-- **The loop goes through events** among which there is no `SDL_USEREVENT`: those that match
are dispatched, and those not handled come to the end of the queue. -/
theorem fetch_drain (dispatch : List (Event α) → Event α → ℤ)
    (hmask : ∀ e : Event α, e.matches eventmask = true → e.type ≠ SDL_USEREVENT)
    (pre es rest : List (Event α)) (event : Event α) (dispatched : List (Event α)) (res : Bool)
    (hpre : ∀ x ∈ pre, Passed eventmask x) (hes : ∀ x ∈ es, x.type ≠ SDL_USEREVENT)
    (hlength : (pre ++ es ++ rest).length ≤ MAXEVENTS) :
    ∃ event' res', ∀ t : Poll α,
      Leads dispatch eventmask (fetch eventmask ⟨pre ++ es ++ rest, event, dispatched, res⟩) t ↔
        Leads dispatch eventmask
          (fetch eventmask ⟨pre ++ es.filter (fun e => !e.matches eventmask) ++
              (rest ++ unhandled dispatch dispatched (es.filter (Event.matches eventmask))),
            event', dispatched ++ es.filter (Event.matches eventmask), res'⟩) t := by
  induction es generalizing pre rest event dispatched res with
  | nil =>
      refine ⟨event, res, fun t => ?_⟩
      simp [unhandled]
  | cons e es ih =>
      have hes' : ∀ x ∈ es, x.type ≠ SDL_USEREVENT := fun x hx => hes x (List.mem_cons_of_mem e hx)
      by_cases he : e.matches eventmask = true
      · have hfetch : fetch eventmask ⟨pre ++ e :: es ++ rest, event, dispatched, res⟩ =
            ⟨pre ++ (es ++ rest), e, dispatched, true⟩ :=
          fetch_matching hpre he (hmask e he) (by simp)
        have hroom : (pre ++ (es ++ rest)).length < MAXEVENTS := by
          simp only [List.length_append, List.length_cons] at hlength ⊢
          omega
        -- the queue after the event was dispatched
        obtain ⟨rest', hrest', hle, hqueue⟩ : ∃ rest',
            rest' = rest ++ unhandled dispatch dispatched [e] ∧
            (pre ++ es ++ rest').length ≤ MAXEVENTS ∧
            (if dispatch dispatched e = 0 then addEvent e (pre ++ (es ++ rest))
              else pre ++ (es ++ rest)) = pre ++ es ++ rest' := by
          refine ⟨_, rfl, ?_, ?_⟩
          · rw [unhandled, unhandled]
            simp only [List.length_append] at hroom ⊢
            split <;> simp <;> omega
          · rw [unhandled, unhandled, addEvent, if_pos hroom]
            split <;> simp
        obtain ⟨event', res', hiff⟩ := ih pre rest' e (dispatched ++ [e]) true hpre hes' hle
        refine ⟨event', res', fun t => ?_⟩
        have hround : round dispatch eventmask ⟨pre ++ (es ++ rest), e, dispatched, true⟩ =
            fetch eventmask ⟨pre ++ es ++ rest', e, dispatched ++ [e], true⟩ := by
          rw [round, handle, ← hqueue]
        rw [hfetch, leads_iff rfl, hround, hiff, hrest', List.filter_cons_of_pos he,
          List.filter_cons_of_neg (by simp [he])]
        have hunhandled := unhandled_append dispatch dispatched [e]
          (es.filter (Event.matches eventmask))
        rw [List.singleton_append] at hunhandled
        rw [hunhandled, List.append_assoc rest, List.append_assoc dispatched,
          List.singleton_append]
      · have hpassed : Passed eventmask e :=
          ⟨by simpa using he, hes e List.mem_cons_self⟩
        have hpre' : ∀ x ∈ pre ++ [e], Passed eventmask x := by
          intro x hx
          rcases List.mem_append.mp hx with hx | hx
          · exact hpre x hx
          · exact List.mem_singleton.mp hx ▸ hpassed
        have hqueue : pre ++ e :: es ++ rest = pre ++ [e] ++ es ++ rest := by simp
        obtain ⟨event', res', hiff⟩ := ih (pre ++ [e]) rest event dispatched res hpre' hes'
          (hqueue ▸ hlength)
        refine ⟨event', res', fun t => ?_⟩
        rw [hqueue, hiff, List.filter_cons_of_neg he, List.filter_cons_of_pos (by simp [he])]
        simp

@[simp] theorem dispatched_round (s : Poll α) :
    (round dispatch eventmask s).dispatched = s.dispatched ++ [s.event] := by
  rw [round, fetch, get]
  split <;> split <;> rfl

/-- What was dispatched stays dispatched. -/
theorem Leads.dispatched_le (h : Leads dispatch eventmask s t) : s.dispatched <+: t.dispatched := by
  refine Ends.keeps h (I := fun u => s.dispatched <+: u.dispatched) (List.prefix_refl _) ?_
  intro u hu
  rw [dispatched_round]
  exact hu.trans (List.prefix_append _ _)

/-- An event that the loop gets is dispatched. -/
theorem Leads.concat_le (h : Leads dispatch eventmask s t) (hres : s.res = true) :
    s.dispatched ++ [s.event] <+: t.dispatched := by
  have hle := ((leads_iff hres).mp h).dispatched_le
  rwa [dispatched_round] at hle

variable (dispatch) in
theorem unhandled_subset (before es : List (Event α)) : unhandled dispatch before es ⊆ es := by
  induction es generalizing before with
  | nil => exact List.Subset.refl _
  | cons e es ih =>
      rw [unhandled]
      split
      · exact List.cons_subset_cons e (ih _)
      · exact List.subset_cons_of_subset e (ih _)

/-- What comes to the end of the queue matches. -/
theorem others_unhandled (es : List (Event α)) :
    (unhandled dispatch [] (es.filter (Event.matches eventmask))).filter
      (fun e => !e.matches eventmask) = [] := by
  rw [List.filter_eq_nil_iff]
  intro e he
  simp [(List.mem_filter.mp (unhandled_subset dispatch _ _ he)).2]

/-! ### A call -/

/-- A call, before it looks into the queue. -/
def start (queue : List (Event α)) (event : Event α) : Poll α := ⟨queue, event, [], false⟩

variable {event : Event α}

theorem poll_of_none (h : ∀ e ∈ queue, e.matches eventmask = false) (fuel : ℕ) :
    poll_sdlevents dispatch eventmask fuel (start queue event) = some (start queue event) := by
  have hnone : queue.find? (Event.matches eventmask) = none := by
    rw [List.find?_eq_none]
    exact fun e he => by simp [h e he]
  rw [poll_sdlevents]
  dsimp only [start]
  rw [hnone]

/-- Where an event matches, the loop is entered. -/
theorem poll_of_some (dispatch : List (Event α) → Event α → ℤ) (event : Event α)
    (h : ∃ e ∈ queue, e.matches eventmask = true) :
    ∃ found, ∀ t : Poll α,
      (∃ fuel, poll_sdlevents dispatch eventmask fuel (start queue event) = some t) ↔
        Leads dispatch eventmask
          (get eventmask ⟨addEvent .user_event queue, found, [], false⟩) t := by
  obtain ⟨found, hfound⟩ := Option.isSome_iff_exists.mp (List.find?_isSome.mpr h)
  refine ⟨found, fun t => ?_⟩
  simp only [poll_sdlevents, start, hfound]
  rfl

/-- Where an event matches and none before it is a `SDL_USEREVENT`, what the loop first gets
does not stop it. -/
theorem get_eq_fetch (hmask : ∀ e : Event α, e.matches eventmask = true → e.type ≠ SDL_USEREVENT)
    (hpre : ∀ x ∈ pre, x.type ≠ SDL_USEREVENT) (hmatch : ∃ e ∈ pre, e.matches eventmask = true)
    (hqueue : s.queue = pre ++ post) : s.get eventmask = s.fetch eventmask := by
  obtain ⟨found, hfound⟩ := Option.isSome_iff_exists.mp (List.find?_isSome.mpr hmatch)
  obtain ⟨hmatches, as, bs, rfl, has⟩ := List.find?_eq_some_iff_append.mp hfound
  have hpassed : ∀ x ∈ as, Passed eventmask x := fun x hx =>
    ⟨by simpa using has x hx, hpre x (List.mem_append_left _ hx)⟩
  have hqueue' : s.queue = as ++ found :: (bs ++ post) := by simpa using hqueue
  rw [get_append hpassed (.inl hmatches) hqueue',
    fetch_matching hpassed hmatches (hmask _ hmatches) hqueue']

/-- The queue after all that matches was dispatched once. -/
theorem polled_of_drained (dispatch : List (Event α) → Event α → ℤ) (eventmask : BitVec 32)
    (event : Event α) (res : Bool) (hsentinel : .user_event ∉ queue) :
    Polled dispatch eventmask queue
      ⟨queue.filter (fun e => !e.matches eventmask) ++
        unhandled dispatch [] (queue.filter (Event.matches eventmask)),
        event, queue.filter (Event.matches eventmask), res⟩ := by
  have hall : ∀ e ∈ unhandled dispatch [] (queue.filter (Event.matches eventmask)),
      e.matches eventmask = true := fun e he =>
    (List.mem_filter.mp (unhandled_subset dispatch _ _ he)).2
  refine ⟨rfl, ?_, ?_, ?_⟩
  · rw [List.filter_append, List.filter_filter, others_unhandled, List.append_nil]
    simp
  · rw [List.filter_append, List.filter_filter, List.filter_eq_self.mpr hall]
    simp
  · intro hmem
    rcases List.mem_append.mp hmem with hmem | hmem
    · exact hsentinel (List.mem_filter.mp hmem).1
    · exact hsentinel (List.mem_filter.mp (unhandled_subset dispatch _ _ hmem)).1

theorem length_addEvent (hlength : queue.length ≤ MAXEVENTS) :
    (addEvent e queue).length ≤ MAXEVENTS := by
  rw [addEvent]
  split
  · rw [List.length_append, List.length_singleton]
    omega
  · exact hlength

/-- The events that the loop passes over in a stretch without `SDL_USEREVENT`. -/
theorem passed_of_filter (h : ∀ x ∈ pre, x.type ≠ SDL_USEREVENT) :
    ∀ x ∈ pre.filter (fun e => !e.matches eventmask), Passed eventmask x := by
  intro x hx
  obtain ⟨hx, hnot⟩ := List.mem_filter.mp hx
  exact ⟨by simpa using hnot, h x hx⟩

/-- **A call, where an event matches before the first `SDL_USEREVENT`**: what is before that is
gone through once. -/
theorem poll_drained (dispatch : List (Event α) → Event α → ℤ) (event : Event α)
    (hmask : ∀ e : Event α, e.matches eventmask = true → e.type ≠ SDL_USEREVENT)
    (hlength : queue.length ≤ MAXEVENTS) (hpre : ∀ x ∈ pre, x.type ≠ SDL_USEREVENT)
    (hmatch : ∃ e ∈ pre, e.matches eventmask = true) (hin : pre ⊆ queue)
    (hadded : addEvent .user_event queue = pre ++ post) :
    ∃ event' res', ∀ t : Poll α,
      (∃ fuel, poll_sdlevents dispatch eventmask fuel (start queue event) = some t) ↔
        Leads dispatch eventmask
          (fetch eventmask ⟨pre.filter (fun e => !e.matches eventmask) ++
              (post ++ unhandled dispatch [] (pre.filter (Event.matches eventmask))),
            event', pre.filter (Event.matches eventmask), res'⟩) t := by
  obtain ⟨first, hfirst, hmatches⟩ := hmatch
  obtain ⟨found, hpoll⟩ := poll_of_some dispatch event ⟨first, hin hfirst, hmatches⟩
  have hroom : (pre ++ post).length ≤ MAXEVENTS := hadded ▸ length_addEvent hlength
  obtain ⟨event', res', hdrain⟩ := fetch_drain dispatch hmask [] pre post found [] false
    (fun x hx => nomatch hx) hpre hroom
  refine ⟨event', res', fun t => ?_⟩
  rw [hpoll, get_eq_fetch hmask hpre ⟨first, hfirst, hmatches⟩ hadded, hadded]
  exact hdrain t

/-- Without a `SDL_USEREVENT` in the queue, and with a place for one, all is right. -/
theorem poll_of_room (dispatch : List (Event α) → Event α → ℤ) (event : Event α)
    (hmask : ∀ e : Event α, e.matches eventmask = true → e.type ≠ SDL_USEREVENT)
    (hsentinel : .user_event ∉ queue) (hmatch : ∃ e ∈ queue, e.matches eventmask = true)
    (huser : ∀ e ∈ queue, e.type ≠ SDL_USEREVENT) (hroom : queue.length < MAXEVENTS) :
    ∃ t, (∃ fuel, poll_sdlevents dispatch eventmask fuel (start queue event) = some t) ∧
      Polled dispatch eventmask queue t := by
  obtain ⟨event', res', hpoll⟩ := poll_drained dispatch event hmask (Nat.le_of_lt hroom) huser
    hmatch (List.Subset.refl queue) (if_pos hroom)
  refine ⟨_, (hpoll _).mpr ?_, polled_of_drained dispatch eventmask .user_event false hsentinel⟩
  rw [fetch_user (passed_of_filter huser) rfl rfl]
  exact (leads_end_iff rfl).mpr rfl

/-- Without a `SDL_USEREVENT` in the queue, and with no place for one, all is right where all
that matches is handled. -/
theorem poll_of_full (dispatch : List (Event α) → Event α → ℤ) (event : Event α)
    (hmask : ∀ e : Event α, e.matches eventmask = true → e.type ≠ SDL_USEREVENT)
    (hsentinel : .user_event ∉ queue) (hmatch : ∃ e ∈ queue, e.matches eventmask = true)
    (huser : ∀ e ∈ queue, e.type ≠ SDL_USEREVENT) (hfull : queue.length = MAXEVENTS) :
    (∃ t, (∃ fuel, poll_sdlevents dispatch eventmask fuel (start queue event) = some t) ∧
      Polled dispatch eventmask queue t) ↔
        unhandled dispatch [] (queue.filter (Event.matches eventmask)) = [] := by
  have hadded : addEvent .user_event queue = queue ++ [] := by
    rw [addEvent, if_neg (by omega), List.append_nil]
  obtain ⟨event', res', hpoll⟩ := poll_drained dispatch event hmask (Nat.le_of_eq hfull) huser
    hmatch (List.Subset.refl queue) hadded
  rw [List.nil_append] at hpoll
  constructor
  · rintro ⟨t, hends, hright⟩
    by_contra hsome
    obtain ⟨e, es, hes⟩ := List.exists_cons_of_ne_nil hsome
    have he : e ∈ queue.filter (Event.matches eventmask) :=
      unhandled_subset dispatch [] _ (hes ▸ List.mem_cons_self)
    have hmatches := (List.mem_filter.mp he).2
    have hleads := (hpoll t).mp hends
    rw [hes, fetch_matching (passed_of_filter huser) hmatches (hmask e hmatches) rfl] at hleads
    -- the event is dispatched for the second time
    have htwice := (hleads.concat_le rfl).length_le
    rw [hright.dispatched, List.length_append, List.length_singleton] at htwice
    dsimp only at htwice
    omega
  · intro hnone
    refine ⟨_, (hpoll _).mpr ?_, polled_of_drained dispatch eventmask event' false hsentinel⟩
    rw [hnone, List.append_nil, fetch_none (passed_of_filter huser)]
    exact (leads_end_iff rfl).mpr rfl

/-- With a `SDL_USEREVENT` in the queue, nothing is right where an event matches. -/
theorem poll_of_user (dispatch : List (Event α) → Event α → ℤ) (event : Event α)
    (hmask : ∀ e : Event α, e.matches eventmask = true → e.type ≠ SDL_USEREVENT)
    (hlength : queue.length ≤ MAXEVENTS) (hmatch : ∃ e ∈ queue, e.matches eventmask = true)
    (huser : ∃ e ∈ queue, e.type = SDL_USEREVENT) :
    ¬ ∃ t, (∃ fuel, poll_sdlevents dispatch eventmask fuel (start queue event) = some t) ∧
      Polled dispatch eventmask queue t := by
  rintro ⟨t, hends, hright⟩
  obtain ⟨e, he, htype⟩ := huser
  have hsome : (queue.find? fun e => decide (e.type = SDL_USEREVENT)).isSome :=
    List.find?_isSome.mpr ⟨e, he, decide_eq_true htype⟩
  obtain ⟨user, hfound⟩ := Option.isSome_iff_exists.mp hsome
  obtain ⟨huser, as, bs, hqueue, has⟩ := List.find?_eq_some_iff_append.mp hfound
  have huser : user.type = SDL_USEREVENT := of_decide_eq_true huser
  have has : ∀ x ∈ as, x.type ≠ SDL_USEREVENT := fun x hx => by simpa using has x hx
  obtain ⟨cs, hadded, hcs⟩ : ∃ cs, addEvent .user_event queue = as ++ user :: cs ∧
      (cs = bs ∨ .user_event ∈ cs) := by
    rw [addEvent, hqueue]
    split
    · exact ⟨bs ++ [.user_event], by simp, .inr (by simp)⟩
    · exact ⟨bs, rfl, .inl rfl⟩
  by_cases hpre : ∃ e ∈ as, e.matches eventmask = true
  · have hin : as ⊆ queue := fun x hx => hqueue ▸ List.mem_append_left _ hx
    obtain ⟨event', res', hpoll⟩ := poll_drained dispatch event hmask hlength has hpre hin hadded
    have hleads := (hpoll t).mp hends
    rw [List.cons_append, fetch_user (passed_of_filter has) huser rfl] at hleads
    obtain rfl := (leads_end_iff rfl).mp hleads
    rcases hcs with rfl | hcs
    · -- the `SDL_USEREVENT` is gone
      have hnot : user.matches eventmask = false := by
        by_contra hmatches
        exact hmask user (by simpa using hmatches) huser
      have hothers := congrArg List.length hright.others
      rw [hqueue, ← List.append_assoc, List.filter_append, others_unhandled, List.append_nil,
        List.filter_append, List.filter_append, List.filter_filter,
        List.filter_cons_of_pos (by simp [hnot])] at hothers
      simp at hothers
    · exact hright.no_sentinel (List.mem_append_right _ (List.mem_append_left _ hcs))
  · -- the `SDL_USEREVENT` is dispatched
    have hpassed : ∀ x ∈ as, Passed eventmask x := fun x hx =>
      ⟨by simpa using fun hmatches => hpre ⟨x, hx, hmatches⟩, has x hx⟩
    obtain ⟨found, hpoll⟩ := poll_of_some dispatch event hmatch
    have hleads := (hpoll t).mp hends
    rw [get_append hpassed (.inr huser) hadded] at hleads
    have hfirst := hleads.concat_le rfl
    rw [hright.dispatched] at hfirst
    have hmem := hfirst.subset (List.mem_append_right _ (List.mem_singleton.mpr rfl))
    exact hmask user (List.mem_filter.mp hmem).2 huser

/-- **Polling is right** exactly when no event matches; or there is no `SDL_USEREVENT` in the
queue, and there is a place for one or all that matches is handled. -/
theorem poll_right_iff (dispatch : List (Event α) → Event α → ℤ) (event : Event α)
    (hmask : eventmask.getLsbD SDL_USEREVENT = false) (hsentinel : .user_event ∉ queue)
    (hlength : queue.length ≤ MAXEVENTS) :
    (∃ fuel t, poll_sdlevents dispatch eventmask fuel (start queue event) = some t ∧
        Polled dispatch eventmask queue t) ↔
      (∀ e ∈ queue, e.matches eventmask = false) ∨
        (∀ e ∈ queue, e.type ≠ SDL_USEREVENT) ∧
          (queue.length < MAXEVENTS ∨
            unhandled dispatch [] (queue.filter (Event.matches eventmask)) = []) := by
  have hmask' : ∀ e : Event α, e.matches eventmask = true → e.type ≠ SDL_USEREVENT := by
    intro e hmatches htype
    rw [Event.matches, htype, hmask] at hmatches
    exact Bool.false_ne_true hmatches
  have hswap : (∃ fuel t, poll_sdlevents dispatch eventmask fuel (start queue event) = some t ∧
        Polled dispatch eventmask queue t) ↔
      ∃ t, (∃ fuel, poll_sdlevents dispatch eventmask fuel (start queue event) = some t) ∧
        Polled dispatch eventmask queue t := by
    rw [exists_comm]
    simp only [exists_and_right]
  rw [hswap]
  by_cases hnone : ∀ e ∈ queue, e.matches eventmask = false
  · refine iff_of_true ⟨_, ⟨0, poll_of_none hnone 0⟩, ?_⟩ (.inl hnone)
    have hmatching : queue.filter (Event.matches eventmask) = [] :=
      List.filter_eq_nil_iff.mpr fun e he => by simp [hnone e he]
    refine ⟨hmatching.symm, rfl, ?_, hsentinel⟩
    rw [start, hmatching]
    rfl
  rw [or_iff_right hnone]
  have hmatch : ∃ e ∈ queue, e.matches eventmask = true := by simpa using hnone
  by_cases huser : ∃ e ∈ queue, e.type = SDL_USEREVENT
  · refine iff_of_false (poll_of_user dispatch event hmask' hlength hmatch huser) fun h => ?_
    obtain ⟨e, he, htype⟩ := huser
    exact h.1 e he htype
  have huser' : ∀ e ∈ queue, e.type ≠ SDL_USEREVENT := fun e he htype => huser ⟨e, he, htype⟩
  rw [and_iff_right huser']
  rcases Nat.lt_or_eq_of_le hlength with hroom | hfull
  · exact iff_of_true (poll_of_room dispatch event hmask' hsentinel hmatch huser' hroom)
      (.inl hroom)
  · rw [poll_of_full dispatch event hmask' hsentinel hmatch huser' hfull]
    exact (or_iff_right (by omega)).symm

/-- One key event, of type 2. -/
theorem poll_right_iff_key :
    (∃ fuel t, poll_sdlevents (fun _ _ => 1) 4#32 fuel
        (start [Event.given 2 ()] .user_event) = some t ∧
        Polled (fun _ _ => 1) 4#32 [Event.given 2 ()] t) ↔
      (∀ e ∈ [Event.given 2 ()], e.matches 4#32 = false) ∨
        (∀ e ∈ [Event.given 2 ()], e.type ≠ SDL_USEREVENT) ∧
          ([Event.given 2 ()].length < MAXEVENTS ∨
            unhandled (fun _ _ => 1) [] ([Event.given 2 ()].filter (Event.matches 4#32)) = []) :=
  poll_right_iff _ _ (by decide) (by simp) (by decide)

/-- An event of the application before a key event: it is dispatched. -/
theorem poll_dispatches_user : ¬ ∀ (dispatch : List (Event Unit) → Event Unit → ℤ)
    (eventmask : BitVec 32) (queue : List (Event Unit)) (event : Event Unit),
    eventmask.getLsbD SDL_USEREVENT = false → .user_event ∉ queue → queue.length ≤ MAXEVENTS →
      ∃ fuel t, poll_sdlevents dispatch eventmask fuel (start queue event) = some t ∧
        Polled dispatch eventmask queue t := by
  intro h
  obtain ⟨fuel, t, hends, hright⟩ := h (fun _ _ => 1) 4#32 [.given SDL_USEREVENT (), .given 2 ()]
    .user_event (by decide) (by simp) (by decide)
  refine poll_of_user (fun _ _ => 1) .user_event ?_ (by decide) ⟨.given 2 (), by simp, by decide⟩
    ⟨.given SDL_USEREVENT (), by simp, rfl⟩ ⟨t, ⟨fuel, hends⟩, hright⟩
  intro e hmatches htype
  rw [Event.matches, htype] at hmatches
  exact absurd hmatches (by decide)

end Poll

end FreeJ
