import Mathlib.Order.MinMax

/- `RangeSizeSet` (Common/RangeSizeSet.h): half-open ranges in a map from their beginnings (`from`
   of the source, here `start`) to their ends (`to`, here `stop`), and a multimap of the same ranges
   by size, largest first, with an iterator each way between the two. Elements of both containers
   carry an identity, and an iterator is the identity of an element or, as `none`, the end.
   Following an iterator to nothing, and an assertion that fails, are `none` as results. The type of
   the points is any linear order, `calcSize` any function of two points into one. -/
namespace DolphinXR.Common

abbrev Iterator := Option Nat

/-- An element of the map; a range that has just been emplaced has no `SizeIt` yet. -/
structure RangeNode (T : Type) where
  id : Nat
  start : T
  stop : T
  sizeIt : Iterator
  deriving DecidableEq

structure SizeEntry (S : Type) where
  id : Nat
  size : S
  it : Iterator
  deriving DecidableEq

structure RangeSizeSet (T S : Type) where
  map : List (RangeNode T) := []
  sizes : List (SizeEntry S) := []
  /-- The identity of the next element. -/
  fresh : Nat := 0
  deriving DecidableEq

def check (p : Prop) [Decidable p] : Option Unit := if p then some () else none

namespace RangeSizeSet
variable {T S : Type} [LinearOrder T] [LinearOrder S]

/-! The containers. -/

def node? (s : RangeSizeSet T S) (it : Iterator) : Option (RangeNode T) :=
  s.map.find? fun n => some n.id = it

def getFrom (s : RangeSizeSet T S) (it : Iterator) : Option T := (s.node? it).map RangeNode.start

def getTo (s : RangeSizeSet T S) (it : Iterator) : Option T := (s.node? it).map RangeNode.stop

def begin (s : RangeSizeSet T S) : Iterator := s.map.head?.map RangeNode.id

def upperBound (s : RangeSizeSet T S) (key : T) : Iterator :=
  (s.map.find? fun n => key < n.start).map RangeNode.id

def lowerBound (s : RangeSizeSet T S) (key : T) : Iterator :=
  (s.map.find? fun n => key ≤ n.start).map RangeNode.id

/-- `++it`. -/
def next (s : RangeSizeSet T S) (it : Iterator) : Option Iterator :=
  match s.map.dropWhile fun n => some n.id ≠ it with
  | [] => none
  | _ :: rest => some (rest.head?.map RangeNode.id)

/-- `--it`. -/
def prev (s : RangeSizeSet T S) (it : Iterator) : Option Iterator :=
  match (s.map.takeWhile fun n => some n.id ≠ it).getLast? with
  | none => none
  | some n => some (some n.id)

/-- `Map.emplace`, which leaves a range that begins there alone. -/
def emplaceMap (s : RangeSizeSet T S) (start stop : T) : Iterator × RangeSizeSet T S :=
  match s.map.find? fun n => n.start = start with
  | some n => (some n.id, s)
  | none =>
    (some s.fresh, { s with
      map := s.map.takeWhile (fun n => n.start < start) ++
        { id := s.fresh, start := start, stop := stop, sizeIt := none } ::
          s.map.dropWhile fun n => n.start < start
      fresh := s.fresh + 1 })

/-- `Sizes.emplace`: behind the ranges that are as large. -/
def emplaceSize (s : RangeSizeSet T S) (size : S) (it : Iterator) : Iterator × RangeSizeSet T S :=
  (some s.fresh, { s with
    sizes := s.sizes.takeWhile (fun e => size ≤ e.size) ++
      { id := s.fresh, size := size, it := it } :: s.sizes.dropWhile fun e => size ≤ e.size
    fresh := s.fresh + 1 })

/-- `Map.erase`, with the iterator to the range behind. -/
def eraseMap (s : RangeSizeSet T S) (it : Iterator) : Option (Iterator × RangeSizeSet T S) := do
  let after ← s.next it
  return (after, { s with map := s.map.filter fun n => some n.id ≠ it })

/-- `Sizes.erase`, with the iterator to the entry behind. -/
def eraseSize (s : RangeSizeSet T S) (it : Iterator) : Option (Iterator × RangeSizeSet T S) :=
  match s.sizes.dropWhile fun e => some e.id ≠ it with
  | [] => none
  | _ :: rest =>
    some (rest.head?.map SizeEntry.id,
      { s with sizes := s.sizes.filter fun e => some e.id ≠ it })

/-- An assignment through an iterator of the map. -/
def assign (s : RangeSizeSet T S) (it : Iterator) (f : RangeNode T → RangeNode T) :
    Option (RangeSizeSet T S) := do
  let _ ← s.node? it
  return { s with map := s.map.map fun n => if some n.id = it then f n else n }

/-! The helpers. -/

section
variable (calcSize : T → T → S)

def insertRange (s : RangeSizeSet T S) (start stop : T) :
    Option (Iterator × RangeSizeSet T S) := do
  let (m, s) := s.emplaceMap start stop
  let (sizeIt, s) := s.emplaceSize (calcSize start stop) m
  let s ← s.assign m fun n => { n with sizeIt := sizeIt }
  return (m, s)

def eraseRange (s : RangeSizeSet T S) (it : Iterator) :
    Option (Iterator × RangeSizeSet T S) := do
  let n ← s.node? it
  let (_, s) ← s.eraseSize n.sizeIt
  s.eraseMap it

def eraseRangeBySize (s : RangeSizeSet T S) (it : Iterator) :
    Option (Iterator × RangeSizeSet T S) := do
  let e ← s.sizes.find? fun e => some e.id = it
  let (_, s) ← s.eraseMap e.it
  s.eraseSize it

/-- The end of a range and, with it, its entry by size. -/
def setTo (s : RangeSizeSet T S) (it : Iterator) (stop : T) : Option (RangeSizeSet T S) := do
  let s ← s.assign it fun n => { n with stop := stop }
  let n ← s.node? it
  let (_, s) ← s.eraseSize n.sizeIt
  let (sizeIt, s) := s.emplaceSize (calcSize n.start stop) it
  s.assign it fun n => { n with sizeIt := sizeIt }

def expandTo (s : RangeSizeSet T S) (it : Iterator) (stop : T) : Option (RangeSizeSet T S) := do
  check ((← s.getTo it) < stop)
  s.setTo calcSize it stop

def maybeExpandTo (s : RangeSizeSet T S) (it : Iterator) (stop : T) :
    Option (RangeSizeSet T S) := do
  if stop ≤ (← s.getTo it) then
    return s
  else
    s.expandTo calcSize it stop

def reduceTo (s : RangeSizeSet T S) (it : Iterator) (stop : T) : Option (RangeSizeSet T S) := do
  check ((← s.getTo it) > stop)
  s.setTo calcSize it stop

def reduceFrom (s : RangeSizeSet T S) (it : Iterator) (start : T) :
    Option (RangeSizeSet T S) := do
  check ((← s.getFrom it) < start)
  let itto ← s.getTo it
  let (_, s) ← s.eraseRange it
  let (_, s) ← s.insertRange calcSize start itto
  return s

def bisectRange (s : RangeSizeSet T S) (it : Iterator) (start stop : T) :
    Option (RangeSizeSet T S) := do
  check ((← s.getFrom it) < start)
  check ((← s.getFrom it) < stop)
  check ((← s.getTo it) > start)
  check ((← s.getTo it) > stop)
  check (start < stop)
  let itto ← s.getTo it
  let s ← s.reduceTo calcSize it start
  let (_, s) ← s.insertRange calcSize stop itto
  return s

/-- The loop of `merge_from_iterator_to_value`, for as many rounds as are given. -/
def mergeFromIteratorToValue (inserted : Iterator) (stop : T) :
    Nat → RangeSizeSet T S → Iterator → Option (RangeSizeSet T S)
  | 0, _, _ => none
  | rounds + 1, s, bound =>
    if bound = none then
      some s
    else do
      if (← s.getFrom bound) ≤ stop then
        let s ← s.maybeExpandTo calcSize inserted (← s.getTo bound)
        let (bound, s) ← s.eraseRange bound
        mergeFromIteratorToValue inserted stop rounds s bound
      else
        return s

/-- The loop of `erase_from_iterator_to_value`, for as many rounds as are given. -/
def eraseFromIteratorToValue (stop : T) :
    Nat → RangeSizeSet T S → Iterator → Option (RangeSizeSet T S)
  | 0, _, _ => none
  | rounds + 1, s, bound => do
    if stop ≤ (← s.getFrom bound) then
      return s
    else if stop < (← s.getTo bound) then
      s.reduceFrom calcSize bound stop
    else if stop = (← s.getTo bound) then
      let (_, s) ← s.eraseRange bound
      return s
    else
      let (bound, s) ← s.eraseRange bound
      if bound = none then
        return s
      else
        eraseFromIteratorToValue stop rounds s bound

/-! The operations. A loop of theirs has a round for each range and one more. -/

def insert (s : RangeSizeSet T S) (start stop : T) : Option (RangeSizeSet T S) :=
  let rounds := s.map.length + 1
  if start ≥ stop then
    some s
  else if s.upperBound start = none then
    if s.map.isEmpty then do
      let (_, s) ← s.insertRange calcSize start stop
      return s
    else do
      let bound ← s.prev none
      if start > (← s.getTo bound) then
        let (_, s) ← s.insertRange calcSize start stop
        return s
      else
        s.maybeExpandTo calcSize bound stop
  else if s.upperBound start = s.begin then do
    let bound := s.upperBound start
    let (inserted, s) ← s.insertRange calcSize start stop
    mergeFromIteratorToValue calcSize inserted stop rounds s bound
  else do
    let abound := s.upperBound start
    let bound ← s.prev abound
    if (← s.getTo bound) ≥ start then
      let s ← s.maybeExpandTo calcSize bound stop
      let inserted := bound
      let bound ← s.next bound
      mergeFromIteratorToValue calcSize inserted stop rounds s bound
    else if (← s.getFrom abound) ≤ stop then
      let aboundTo ← s.getTo abound
      let (inserted, s) ← s.insertRange calcSize start (if stop ≥ aboundTo then stop else aboundTo)
      let (abound, s) ← s.eraseRange abound
      mergeFromIteratorToValue calcSize inserted stop rounds s abound
    else
      let (_, s) ← s.insertRange calcSize start stop
      return s

def erase (s : RangeSizeSet T S) (start stop : T) : Option (RangeSizeSet T S) :=
  let rounds := s.map.length + 1
  if start ≥ stop then
    some s
  else if s.upperBound start = none then
    if s.map.isEmpty then
      some s
    else do
      let bound ← s.prev none
      if start ≥ (← s.getTo bound) then
        return s
      else if stop ≥ (← s.getTo bound) then
        if start = (← s.getFrom bound) then
          let (_, s) ← s.eraseRange bound
          return s
        else
          s.reduceTo calcSize bound start
      else if start = (← s.getFrom bound) then
        s.reduceFrom calcSize bound stop
      else
        s.bisectRange calcSize bound start stop
  else if s.upperBound start = s.begin then
    eraseFromIteratorToValue calcSize stop rounds s (s.upperBound start)
  else do
    let abound := s.upperBound start
    let bound ← s.prev abound
    if start = (← s.getFrom bound) then
      eraseFromIteratorToValue calcSize stop rounds s bound
    else if start < (← s.getTo bound) then
      if stop < (← s.getTo bound) then
        s.bisectRange calcSize bound start stop
      else
        let s ← s.reduceTo calcSize bound start
        eraseFromIteratorToValue calcSize stop rounds s abound
    else
      eraseFromIteratorToValue calcSize stop rounds s abound

end

def contains (s : RangeSizeSet T S) (value : T) : Option Bool :=
  if s.upperBound value = s.begin then
    some false
  else do
    let it ← s.prev (s.upperBound value)
    return decide ((← s.getFrom it) ≤ value ∧ value < (← s.getTo it))

def overlaps (s : RangeSizeSet T S) (start stop : T) : Option Bool :=
  if start ≥ stop then
    some false
  else if s.lowerBound stop = s.begin then
    some false
  else do
    let it ← s.prev (s.lowerBound stop)
    return decide ((← s.getFrom it) < stop ∧ start < (← s.getTo it))

/-- What `operator==` compares. -/
def ranges (s : RangeSizeSet T S) : List (T × T) := s.map.map fun n => (n.start, n.stop)

end RangeSizeSet
end DolphinXR.Common
