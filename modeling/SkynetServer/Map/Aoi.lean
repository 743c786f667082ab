import SkynetServer.Lib.Table
import SkynetServer.Map.FlatMap

/-!
# Areas of interest

`aoi.lua` keeps, for every registered object, the list of the objects within the radius of it, on top of the quadtree.
`object` and the lists are tables, and a reference to an element of `object` that the source writes through is a
`modify` of its entry. An update may fail after it has taken the object out of the tree; it then returns nothing, but
the tree has changed.
-/

namespace SkynetServer.Map

open Lib

structure Position where
  x : Number
  y : Number
deriving DecidableEq

/-- What a list holds of a neighbour. -/
structure Neighbour (Id Race : Type) where
  id : Id
  race : Race
  pos : Position
deriving DecidableEq

structure Object (Id Race : Type) where
  id : Id
  race : Race
  pos : Position
  qtree : List Quadrant
  list : Table Id (Neighbour Id Race)

structure Aoi (Id Race : Type) where
  object : Table Id (Object Id Race)
  qtree : Quadtree Id Race
  radius : Number

/-- What a successful `update` returns: who comes into range, who stays and who is left. -/
structure Moved (Id Race : Type) where
  nlist : Table Id (Neighbour Id Race)
  ulist : Table Id (Neighbour Id Race)
  olist : Table Id (Neighbour Id Race)

variable {Id Race : Type}

/-- An element of a query result as a list holds it. -/
def Found.neighbour (f : Found Id Race) : Neighbour Id Race := ⟨f.id, f.race, ⟨f.pos.x, f.pos.y⟩⟩

namespace Aoi

variable [DecidableEq Id]

def init (bbox : Box) (r : Number) : Aoi Id Race where
  object := ∅
  qtree := .new bbox
  radius := r

/-- `c.list[id] = {..}`. -/
def note (n : Neighbour Id Race) (c : Object Id Race) : Object Id Race := { c with list := c.list.insert n.id n }

/-- `t.list[id] = nil`. -/
def forget (id : Id) (t : Object Id Race) : Object Id Race := { t with list := t.list.erase id }

/-- The query around `pos` that `insert` and `update` make. -/
def around (s : Aoi Id Race) (qtree : Quadtree Id Race) (id : Id) (pos : Position) : List (Found Id Race) :=
  qtree.query id (pos.x - s.radius) (pos.y - s.radius) (pos.x + s.radius) (pos.y + s.radius) []

/-- The tables a loop over the found objects writes: `object`, and the list of the object at hand. -/
abbrev Lists (Id Race : Type) := Table Id (Object Id Race) × Table Id (Neighbour Id Race)

/-- The loop of `insert`: objects that are not registered are passed over. -/
def meet (me : Neighbour Id Race) (result : List (Found Id Race)) (object : Table Id (Object Id Race)) :
    Lists Id Race :=
  result.foldl (fun lists f =>
    match lists.1.lookup f.id with
    | some _ => (lists.1.modify f.id (note me), lists.2.insert f.id f.neighbour)
    | none => lists) (object, ∅)

def insert (s : Aoi Id Race) (id : Id) (race : Race) (pos : Position) :
    Aoi Id Race × Option (Table Id (Neighbour Id Race) × List (Found Id Race)) :=
  match s.object.lookup id with
  | some _ => (s, none)
  | none =>
    match s.qtree.insert id race pos.x pos.y with
    | none => (s, none)
    | some (tree, qtree) =>
      let result := s.around qtree id pos
      let (object, list) := meet ⟨id, race, pos⟩ result s.object
      ({ s with qtree := qtree, object := object.insert id ⟨id, race, pos, tree, list⟩ }, some (list, result))

/-- `c.qtree:remove (id)`, whatever it returns. -/
def takeOut (s : Aoi Id Race) (c : Object Id Race) (id : Id) : Quadtree Id Race :=
  (s.qtree.removeAt id c.qtree).getD s.qtree

def remove (s : Aoi Id Race) (id : Id) : Aoi Id Race × Option (Table Id (Neighbour Id Race)) :=
  match s.object.lookup id with
  | none => (s, none)
  | some c =>
    let object := c.list.entries.foldl (fun object v => object.modify v.2.id (forget id)) s.object
    ({ s with qtree := s.takeOut c id, object := object.erase id }, some c.list)

/-- The loop of `update`, over the neighbours at the new position. -/
def approach (me : Neighbour Id Race) (result : List (Found Id Race)) (object : Table Id (Object Id Race)) :
    Lists Id Race :=
  result.foldl (fun lists f => (lists.1.modify f.id (note me), lists.2.insert f.id f.neighbour)) (object, ∅)

/-- A neighbour in both lists moves from `olist`, the second table, to `ulist`. -/
def stayStep (lists : Table Id (Neighbour Id Race) × Table Id (Neighbour Id Race))
    (a : Sigma fun _ : Id => Neighbour Id Race) : Table Id (Neighbour Id Race) × Table Id (Neighbour Id Race) :=
  match lists.2.lookup a.1 with
  | some _ => (lists.1.insert a.1 ⟨a.1, a.2.race, a.2.pos⟩, lists.2.erase a.1)
  | none => lists

def stay (nlist olist : Table Id (Neighbour Id Race)) :
    Table Id (Neighbour Id Race) × Table Id (Neighbour Id Race) :=
  nlist.entries.foldl stayStep (∅, olist)

/-- `for id, v in pairs (from) do list[id] = v end`. -/
def copyInto (list source : Table Id (Neighbour Id Race)) : Table Id (Neighbour Id Race) :=
  source.entries.foldl (fun list v => list.insert v.1 v.2) list

def update (s : Aoi Id Race) (id : Id) (race : Race) (pos : Position) : Aoi Id Race × Option (Moved Id Race) :=
  match s.object.lookup id with
  | none => (s, none)
  | some c =>
    let qtree := s.takeOut c id
    match qtree.insert id race pos.x pos.y with
    | none => ({ s with qtree := qtree }, none)
    | some (tree, qtree) =>
      let result := s.around qtree id pos
      let (object, nlist) := approach ⟨id, race, pos⟩ result
        (s.object.insert id { c with qtree := tree, pos := pos })
      let (ulist, olist) := stay nlist c.list
      let nlist := ulist.entries.foldl (fun nlist v => nlist.erase v.1) nlist
      let list := copyInto (copyInto ∅ nlist) ulist
      ({ s with qtree := qtree, object := object.modify id fun c => { c with list := list } },
        some ⟨nlist, ulist, olist⟩)

end Aoi

end SkynetServer.Map
