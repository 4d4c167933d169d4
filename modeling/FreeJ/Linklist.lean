import Mathlib.Data.Int.Basic
import FreeJ.CString
import FreeJ.Links

/-!
# The Linked List Container

`linklist.h` and `linklist.cpp`: an `Entry` carries its own `next`, `prev` and back pointer
to the `Linklist` that holds it, and the operations rewrite these fields in place. The
memory is modelled field by field: `Heap` maps each entry or list to the value of the field
of that name, so that `e->next = x` is the update of one function at one point. A null
pointer is `none`.

An operation that may follow a null pointer, or that may loop for ever, returns `none`
when it does; an operation all of whose dereferences are guarded returns the heap
directly. The list mutex is recursive and the operations modelled here are run by one
thread at a time, so locking is left out; so are the fields that no list operation reads
(`data`, `jsclass`, `jsobj`). A `while` loop is given `length` many rounds, and running out
of them counts as not terminating.
-/

namespace FreeJ

open Function (update)

/-- The fields of every `Entry` and of every `Linklist`, at one moment. -/
structure Heap (E L : Type*) where
  /-- `Entry::next` -/
  next : E → Option E
  /-- `Entry::prev` -/
  prev : E → Option E
  /-- `Entry::list` -/
  list : E → Option L
  /-- `Entry::select` -/
  select : E → Bool
  /-- `BaseLinklist::first` -/
  first : L → Option E
  /-- `BaseLinklist::last` -/
  last : L → Option E
  /-- `BaseLinklist::length` -/
  length : L → ℤ
  /-- `BaseLinklist::selection` -/
  selection : L → Option E

variable {E L : Type*}

/-- Every list just constructed and every entry just constructed. -/
def Heap.fresh : Heap E L where
  next _ := none
  prev _ := none
  list _ := none
  select _ := false
  first _ := none
  last _ := none
  length _ := 0
  selection _ := none

/-! ### Reading: `pick`, `selected`, `search` -/

/-- `Linklist::pick`: the entry at a position counted from 1, a null pointer outside
`1..length`. The walk starts from the nearer end, or so it is meant: the first half is
walked only for `pos < length/2`. -/
def Linklist.pick (h : Heap E L) (l : L) (pos : ℤ) : Option (Option E) :=
  if pos < 1 then some none
  else if h.length l < pos then some none
  else if pos = 1 then some (h.first l)
  else if pos = h.length l then some (h.last l)
  else if pos < (h.length l).tdiv 2 then Links.follow h.next (pos - 1).toNat (h.first l)
  else Links.follow h.prev (h.length l - pos).toNat (h.last l)

/-- `Linklist::selected` -/
def Linklist.selected (h : Heap E L) (l : L) : Option E :=
  match h.first l with
  | none => none
  | some _ => h.selection l

/-- The loop of `Linklist::search`. -/
def Linklist.searchFrom (h : Heap E L) (names : E → CString) (name : CString) :
    ℕ → Option E → ℤ → Option (Option E × ℤ)
  | _, none, _ => some (none, 0)
  | 0, some _, _ => none
  | k + 1, some ptr, c =>
    if (names ptr).sameNoCase name then some (some ptr, c)
    else Linklist.searchFrom h names name k (h.next ptr) (c + 1)

/-- `Linklist::search`: the first entry of that name, whatever the case of its letters, and
its position. The names of the entries are given by `names`; where the list is empty the
position is not set. -/
def Linklist.search (h : Heap E L) (names : E → CString) (l : L) (name : CString) :
    Option (Option E × ℤ) :=
  match h.first l with
  | none => some (none, 0)
  | some ptr => Linklist.searchFrom h names name (h.length l).toNat (some ptr) 1

/-! ### Removal -/

section Operations

variable [DecidableEq E] [DecidableEq L]

/-- `Entry::Entry`, at an address that may have held another entry before. -/
def Entry.construct (h : Heap E L) (this : E) : Heap E L :=
  { h with
    next := update h.next this none
    prev := update h.prev this none
    list := update h.list this none
    select := update h.select this false }

/-- `Entry::rem`, what is done towards the next entry. -/
def Entry.remNext (h : Heap E L) (this : E) (l : L) : Heap E L :=
  match h.next this with
  | some next =>
    let h := { h with prev := update h.prev next (h.prev this) }
    if h.select this then
      { h with
        select := update h.select next (h.select this)
        selection := update h.selection l (some next) }
    else h
  | none => { h with last := update h.last l (h.prev this) }

/-- `Entry::rem`, what is done towards the previous entry. -/
def Entry.remPrev (h : Heap E L) (this : E) (l : L) (lastone : Bool) : Heap E L :=
  match h.prev this with
  | some prev =>
    let h := { h with next := update h.next prev (h.next this) }
    if h.select this then
      let h := if lastone then { h with select := update h.select prev (h.select this) } else h
      { h with selection := update h.selection l (some prev) }
    else h
  | none => { h with first := update h.first l (h.next this) }

/-- `Entry::rem` -/
def Entry.rem (h : Heap E L) (this : E) : Heap E L :=
  match h.list this with
  | none => h
  | some l =>
    let lastone := (h.next this).isNone
    let h := Entry.remNext h this l
    let h := Entry.remPrev h this l lastone
    { h with
      length := update h.length l (h.length l - 1)
      prev := update h.prev this none
      next := update h.next this none
      list := update h.list this none }

/-- `if(addr->list) addr->rem();`, which the insertions begin with. -/
def Entry.release (h : Heap E L) (addr : E) : Heap E L :=
  match h.list addr with
  | some _ => Entry.rem h addr
  | none => h

/-! ### Selection -/

/-- `Entry::sel` -/
def Entry.sel (h : Heap E L) (this : E) (on : Bool) : Heap E L :=
  match h.list this with
  | none => h
  | some l =>
    let h := { h with select := update h.select this on }
    if h.select this then { h with selection := update h.selection l (some this) } else h

/-- The loop of `Linklist::sel(0)`: clear the flag of `ptr` and go on to the next. -/
def Linklist.deselectFrom (h : Heap E L) : ℕ → Option E → Option (Heap E L)
  | _, none => some h
  | 0, some _ => none
  | k + 1, some ptr =>
    Linklist.deselectFrom { h with select := update h.select ptr false } k (h.next ptr)

/-- The loop of `Linklist::sel(pos)`: `c` runs up to `length` while `ptr` follows
`prev`. -/
def Linklist.selectOnly (h : Heap E L) (pos : ℤ) : ℕ → ℤ → Option E → Option (Heap E L)
  | 0, _, _ => some h
  | _ + 1, _, none => none
  | k + 1, c, some ptr =>
    Linklist.selectOnly (Entry.sel h ptr (c = pos)) pos k (c + 1) (h.prev ptr)

/-- `Linklist::sel` -/
def Linklist.sel (h : Heap E L) (l : L) (pos : ℤ) : Option (Heap E L) :=
  match h.first l with
  | none => some h
  | some ptr =>
    if pos > h.length l then some h
    else if pos = 0 then
      (Linklist.deselectFrom h (h.length l).toNat (some ptr)).map fun h =>
        { h with selection := update h.selection l none }
    else Linklist.selectOnly h pos (h.length l).toNat 1 (some ptr)

/-! ### Insertion -/

/-- `Linklist::append` -/
def Linklist.append (h : Heap E L) (l : L) (addr : E) : Heap E L :=
  let h := Entry.release h addr
  let h := match h.last l with
    | none => -- that's the first entry
      let h := { h with last := update h.last l (some addr) }
      let h := { h with next := update h.next addr none }
      let h := { h with prev := update h.prev addr none }
      let h := { h with first := update h.first l (some addr) }
      Entry.sel h addr true
    | some ptr => -- add the entry to the end
      let h := { h with next := update h.next ptr (some addr) }
      let h := { h with next := update h.next addr none }
      let h := { h with prev := update h.prev addr (some ptr) }
      { h with last := update h.last l (some addr) }
  { h with
    list := update h.list addr (some l)
    length := update h.length l (h.length l + 1) }

/-- `Linklist::prepend`: an entry that sits in any list is refused. -/
def Linklist.prepend (h : Heap E L) (l : L) (addr : E) : Heap E L :=
  match h.list addr with
  | some _ => h
  | none =>
    let h := match h.first l with
      | none => -- that's the first entry
        let h := { h with first := update h.first l (some addr) }
        let h := { h with next := update h.next addr none }
        let h := { h with prev := update h.prev addr none }
        { h with last := update h.last l (h.first l) }
      | some ptr => -- add an entry to the beginning
        let h := { h with prev := update h.prev ptr (some addr) }
        let h := { h with next := update h.next addr (some ptr) }
        let h := { h with prev := update h.prev addr none }
        { h with first := update h.first l (some addr) }
    { h with
      list := update h.list addr (some l)
      length := update h.length l (h.length l + 1) }

/-- `Linklist::insert_after` -/
def Linklist.insert_after (h : Heap E L) (l : L) (addr pos : E) : Heap E L :=
  let h := Entry.release h addr
  let h := match h.next pos with
    | some next =>
      let h := { h with prev := update h.prev next (some addr) }
      { h with next := update h.next addr (h.next pos) }
    | none => { h with last := update h.last l (some addr) } -- it's the last
  let h := { h with prev := update h.prev addr (some pos) }
  let h := { h with next := update h.next pos (some addr) }
  { h with
    length := update h.length l (h.length l + 1)
    list := update h.list addr (some l) }

/-- `Linklist::insert` -/
def Linklist.insert (h : Heap E L) (l : L) (addr : E) (pos : ℤ) : Option (Heap E L) :=
  if h.length l ≤ pos then some (Linklist.append h l addr) -- adds it at the end
  else if pos ≤ 1 then some (Linklist.prepend h l addr)
  else
    let h := Entry.release h addr
    match Linklist.pick h l pos with
    | some (some ptr) =>
      match h.prev ptr with
      | some before =>
        let h := { h with next := update h.next before (some addr) }
        let h := { h with prev := update h.prev addr (h.prev ptr) }
        let h := { h with prev := update h.prev ptr (some addr) }
        let h := { h with next := update h.next addr (some ptr) }
        some { h with
          length := update h.length l (h.length l + 1)
          list := update h.list addr (some l) }
      | none => none
    | _ => none

/-- `Linklist::clear`: the pointers stored in the list are discarded, those of its entries are
not. -/
def Linklist.clear (h : Heap E L) (l : L) : Option (Heap E L) :=
  (Linklist.sel h l 0).map fun h =>
    let h := { h with length := update h.length l 0 }
    let h := { h with first := update h.first l none }
    { h with last := update h.last l none }

/-! ### Reordering -/

/-- `Entry::up` -/
def Entry.up (h : Heap E L) (this : E) : Bool × Heap E L :=
  match h.list this, h.prev this with
  | some l, some tprev =>
    let tnext := h.next this
    let pp := h.prev tprev
    let h := match h.next this with
      | none => { h with last := update h.last l (h.prev this) }
      | some _ => h
    let h := match tnext with
      | some tnext => { h with prev := update h.prev tnext (some tprev) }
      | none => h
    let h := { h with next := update h.next this (some tprev) }
    let h := { h with prev := update h.prev this pp }
    let h := { h with next := update h.next tprev tnext }
    let h := { h with prev := update h.prev tprev (some this) }
    let h := match pp with
      | some pp => { h with next := update h.next pp (some this) }
      | none => h
    let h := match h.prev this with
      | none => { h with first := update h.first l (some this) }
      | some _ => h
    (true, h)
  | _, _ => (false, h)

/-- `Entry::down` -/
def Entry.down (h : Heap E L) (this : E) : Bool × Heap E L :=
  match h.list this, h.next this with
  | some l, some tnext =>
    let tprev := h.prev this
    let nn := h.next tnext
    let h := match h.prev this with
      | none => { h with first := update h.first l (h.next this) }
      | some _ => h
    let h := match tprev with
      | some tprev => { h with next := update h.next tprev (some tnext) }
      | none => h
    let h := { h with prev := update h.prev this (some tnext) }
    let h := { h with next := update h.next this nn }
    let h := { h with prev := update h.prev tnext tprev }
    let h := { h with next := update h.next tnext (some this) }
    let h := match nn with
      | some nn => { h with prev := update h.prev nn (some this) }
      | none => h
    let h := match h.next this with
      | none => { h with last := update h.last l (some this) }
      | some _ => h
    (true, h)
  | _, _ => (false, h)

/-- `Entry::move`, the loop that finds our position. -/
def Entry.search (h : Heap E L) (this : E) : ℕ → Option E → ℤ → Option ℤ
  | _, none, mypos => some mypos
  | 0, some _, _ => none
  | k + 1, some search, mypos =>
    if search = this then some mypos
    else Entry.search h this k (h.next search) (mypos + 1)

/-- `Entry::move`, detach ourselves from the list. -/
def Entry.detach (h : Heap E L) (this : E) (l : L) : Heap E L :=
  let h := match h.next this with
    | some next =>
      let h := { h with prev := update h.prev next (h.prev this) }
      match h.prev this with
      | some prev => { h with next := update h.next prev (h.next this) }
      | none => { h with first := update h.first l (h.next this) }
    | none => { h with last := update h.last l (h.prev this) }
  let h := match h.prev this with
    | some prev =>
      let h := { h with next := update h.next prev (h.next this) }
      match h.next this with
      | some next => { h with prev := update h.prev next (h.prev this) }
      | none => { h with last := update h.last l (h.prev this) }
    | none => { h with first := update h.first l (h.next this) }
  { h with
    prev := update h.prev this none
    next := update h.next this none }

/-- `Entry::move`, insert ourselves at the new position. -/
def Entry.attach (h : Heap E L) (this : E) (l : L) (mypos pos : ℤ) (displaced : Option E) :
    Option (Heap E L) :=
  if pos ≥ h.length l then -- we are going to be the last entry
    match h.last l with
    | some last =>
      let h := { h with next := update h.next last (some this) }
      let h := { h with prev := update h.prev this (h.last l) }
      some { h with last := update h.last l (some this) }
    | none => none
  else if pos = 1 then -- we are going to be the first entry
    match h.first l with
    | some first =>
      let h := { h with prev := update h.prev first (some this) }
      let h := { h with next := update h.next this (h.first l) }
      some { h with first := update h.first l (some this) }
    | none => none
  else if mypos > pos then
    match displaced with
    | some displaced =>
      let h := { h with prev := update h.prev this (h.prev displaced) }
      let h := match h.prev this with
        | some prev => { h with next := update h.next prev (some this) }
        | none => { h with first := update h.first l (some this) }
      let h := { h with next := update h.next this (some displaced) }
      some { h with prev := update h.prev displaced (some this) }
    | none => none
  else if mypos < pos then
    match displaced with
    | some displaced =>
      let h := { h with next := update h.next this (h.next displaced) }
      let h := match h.next this with
        | some next => { h with prev := update h.prev next (some this) }
        | none => { h with last := update h.last l (some this) }
      let h := { h with prev := update h.prev this (some displaced) }
      some { h with next := update h.next displaced (some this) }
    | none => none
  else some h

/-- `Entry::move` -/
def Entry.move (h : Heap E L) (this : E) (pos : ℤ) : Option (Bool × Heap E L) :=
  match h.list this with
  | none => some (false, h)
  | some l =>
    (Entry.search h this (h.length l).toNat (h.first l) 1).bind fun mypos =>
      if mypos = pos then some (true, h) -- no move is necessary
      else
        (Linklist.pick h l pos).bind fun displaced =>
          (Entry.attach (Entry.detach h this l) this l mypos pos displaced).map fun h =>
            (true, h)

/-- `Entry::swap`, update head of the list if necessary. -/
def Entry.swapHead (h : Heap E L) (this : E) (l : L) (swapping : E) : Heap E L :=
  match h.prev this with
  | none => { h with first := update h.first l (some this) }
  | some prev =>
    let h := { h with next := update h.next prev (some this) }
    match h.prev swapping with
    | none => { h with first := update h.first l (some swapping) }
    | some before => { h with next := update h.next before (some swapping) }

/-- `Entry::swap`, update the tail of the list if necessary. -/
def Entry.swapTail (h : Heap E L) (this : E) (l : L) (swapping : E) : Heap E L :=
  match h.next this with
  | none => { h with last := update h.last l (some this) }
  | some next =>
    let h := { h with prev := update h.prev next (some this) }
    match h.next swapping with
    | none => { h with last := update h.last l (some swapping) }
    | some after => { h with prev := update h.prev after (some swapping) }

/-- `Entry::swap`, exchange ourselves with another entry of the list. -/
def Entry.exchange (h : Heap E L) (this : E) (l : L) (swapping : E) : Heap E L :=
  let tn := h.next swapping
  let tp := h.prev swapping
  let h := { h with
    next := update h.next swapping
      (if h.next this = some swapping then some this else h.next this) }
  let h := { h with next := update h.next this (if tn = some this then some swapping else tn) }
  let h := { h with
    prev := update h.prev swapping
      (if h.prev this = some swapping then some this else h.prev this) }
  let h := { h with prev := update h.prev this (if tp = some this then some swapping else tp) }
  Entry.swapTail (Entry.swapHead h this l swapping) this l swapping

/-- `Entry::swap` -/
def Entry.swap (h : Heap E L) (this : E) (pos : ℤ) : Option (Bool × Heap E L) :=
  match h.list this with
  | none => some (false, h)
  | some l =>
    (Linklist.pick h l pos).map fun
      | none => (false, h)
      | some swapping =>
        if swapping = this then (true, h) else (true, Entry.exchange h this l swapping)

/-! ### The operations by position -/

/-- `Linklist::rem` -/
def Linklist.rem (h : Heap E L) (l : L) (pos : ℤ) : Option (Heap E L) :=
  (Linklist.pick h l pos).map fun
    | some ptr => Entry.rem h ptr
    | none => h

/-- `Linklist::moveup` -/
def Linklist.moveup (h : Heap E L) (l : L) (pos : ℤ) : Option (Bool × Heap E L) :=
  (Linklist.pick h l pos).map fun
    | some p => Entry.up h p
    | none => (false, h)

/-- `Linklist::movedown` -/
def Linklist.movedown (h : Heap E L) (l : L) (pos : ℤ) : Option (Bool × Heap E L) :=
  (Linklist.pick h l pos).map fun
    | some p => Entry.down h p
    | none => (false, h)

/-- `Linklist::moveto` -/
def Linklist.moveto (h : Heap E L) (l : L) (num pos : ℤ) : Option (Bool × Heap E L) :=
  (Linklist.pick h l num).bind fun
    | some p => Entry.move h p pos
    | none => some (false, h)

end Operations

end FreeJ
