import SkynetServer.Skiplist.Obj

/-!
# The skip list

The data structure of `skiplist.c`: nodes with a score, a member, a pointer to the node before them and, on each of their
levels, a pointer to the next node of that level together with the number of nodes it passes over. A pointer is an address
or `NULL`, and the heap says which addresses are allocated. Every read goes through the heap and fails at `NULL`, at an
address that has been freed and at a level the node does not have, so that a call which returns has done none of these. The
loops of the searches are given as many rounds as the list has nodes, and one more.

Scores are the elements of a linear order: the `double`s that are not NaN.
-/

namespace SkynetServer.Sl

/-- An address, where it is not `NULL`. -/
abbrev Id := Nat

def skiplistMaxlevel : Nat := 32

structure Link where
  forward : Option Id
  span : UInt32
deriving DecidableEq

/-- A `skiplistNode`; only the header has no member. -/
structure Node (α : Type) where
  obj : Option Obj
  score : α
  backward : Option Id
  level : List Link

abbrev Heap (α : Type) := Id → Option (Node α)

/-- A `skiplist`, with the heap its nodes are in and the addresses that are left for new ones. -/
structure Skiplist (α : Type) where
  heap : Heap α
  fresh : Id
  header : Id
  tail : Option Id
  length : Nat
  level : Nat

section

variable {α : Type}

/-! ### Reads and writes -/

/-- `x->level[i]`. -/
def link (h : Heap α) (x : Id) (i : Nat) : Option Link := do
  let node ← h x
  node.level[i]?

/-- The assignment to `x->level[i]`. -/
def setLink (h : Heap α) (x : Id) (i : Nat) (l : Link) : Option (Heap α) := do
  let node ← h x
  if i < node.level.length then
    return Function.update h x (some { node with level := node.level.set i l })
  else
    none

/-- The assignment to `x->backward`. -/
def setBackward (h : Heap α) (x : Id) (backward : Option Id) : Option (Heap α) := do
  let node ← h x
  return Function.update h x (some { node with backward })

/-- `slCreateNode`. What `malloc` leaves in the links and in `backward` is written before it is read. -/
def slCreateNode (level : Nat) (score : α) (obj : Option Obj) : Node α :=
  { obj, score, backward := none, level := List.replicate level ⟨none, 0⟩ }

/-- `slFreeNode`: the member is freed with the node, and the header has none. -/
def slFreeNode (h : Heap α) (x : Id) : Option (Heap α) := do
  let node ← h x
  let _ ← node.obj
  return Function.update h x none

def slCreate [Zero α] : Skiplist α :=
  { heap := Function.update (fun _ => none) 0 (some (slCreateNode skiplistMaxlevel 0 none))
    fresh := 1
    header := 0
    tail := none
    length := 0
    level := 1 }

section

variable {τ : Type} (h : Heap α) (go : τ → UInt32 → Id → Option Bool) (add : τ → UInt32 → τ)

/-- The `while` of one level. -/
def walk (i : Nat) : Nat → Id → τ → Option (Id × τ)
  | 0, _, _ => none
  | fuel + 1, x, crossed => do
    let l ← link h x i
    match l.forward with
    | none => return (x, crossed)
    | some y =>
      if ← go crossed l.span y then
        walk i fuel y (add crossed l.span)
      else
        return (x, crossed)

/-- The `for` over the levels below `n`: where the search stopped on each of them, from level 0 on, and what it had crossed
there. -/
def descend (fuel : Nat) : Nat → Id → τ → Option (List (Id × τ))
  | 0, _, _ => some []
  | i + 1, x, crossed => do
    let (x, crossed) ← walk h go add i fuel x crossed
    let below ← descend fuel i x crossed
    return below ++ [(x, crossed)]

/-- The same with a `return` on the first level on which the node reached is `found`. -/
def seek (found : Id → τ → Option Bool) (fuel : Nat) : Nat → Id → τ → Option (Option (Id × τ))
  | 0, _, _ => some none
  | i + 1, x, crossed => do
    let (x, crossed) ← walk h go add i fuel x crossed
    if ← found x crossed then
      return some (x, crossed)
    else
      seek found fuel i x crossed

end

/-! ### Insertion -/

/-- `slRandomLevel`, with the values `random()` returns up to the one that ends the loop. -/
def slRandomLevel (draws : List Nat) : Nat :=
  let level := 1 + (draws.takeWhile fun draw => 4 * (draw % 0x10000) < 0xffff).length
  if level < skiplistMaxlevel then level else skiplistMaxlevel

/-- The node at `y` comes before `score` and a member that `cmp` accepts. -/
def ahead [LinearOrder α] (cmp : Int → Bool) (h : Heap α) (score : α) (obj : Obj) (y : Id) : Option Bool := do
  let node ← h y
  if node.score < score then
    return true
  else if node.score = score then
    let o ← node.obj
    return cmp (compareslObj o obj)
  else
    return false

/-- The levels the list does not have yet start at the header. -/
def raise (sl : Skiplist α) (level : Nat) (path : List (Id × UInt32)) : Option (Skiplist α × List (Id × UInt32)) :=
  if sl.level < level then do
    let heap ← (List.range' sl.level (level - sl.level)).foldlM (fun h i => do
      let l ← link h sl.header i
      setLink h sl.header i { l with span := UInt32.ofNat sl.length }) sl.heap
    return ({ sl with heap, level }, path ++ List.replicate (level - sl.level) (sl.header, 0))
  else
    some (sl, path)

/-- `x` is put behind `u` on level `i`; `between` nodes are left between the two. -/
def splice (h : Heap α) (x u : Id) (i : Nat) (between : UInt32) : Option (Heap α) := do
  let l ← link h u i
  let h ← setLink h x i ⟨l.forward, l.span - between⟩
  setLink h u i ⟨some x, between + 1⟩

/-- A level on which `u` now passes over one more node. -/
def widen (h : Heap α) (u : Id) (i : Nat) : Option (Heap α) := do
  let l ← link h u i
  setLink h u i { l with span := l.span + 1 }

def slInsert [LinearOrder α] (sl : Skiplist α) (draws : List Nat) (score : α) (obj : Obj) : Option (Skiplist α) := do
  let path ← descend sl.heap (fun _ _ y => ahead (· < 0) sl.heap score obj y) (· + ·) (sl.length + 1) sl.level sl.header
    (0 : UInt32)
  let level := slRandomLevel draws
  let (sl, path) ← raise sl level path
  let x := sl.fresh
  let (update0, rank0) ← path[0]?
  let heap := Function.update sl.heap x (some (slCreateNode level score (some obj)))
  let heap ← (List.range level).foldlM (fun h i => do
    let (u, rank) ← path[i]?
    splice h x u i (rank0 - rank)) heap
  let heap ← (List.range' level (sl.level - level)).foldlM (fun h i => do
    let (u, _) ← path[i]?
    widen h u i) heap
  let heap ← setBackward heap x (if update0 = sl.header then none else some update0)
  let l ← link heap x 0
  match l.forward with
  | some y =>
    let heap ← setBackward heap y (some x)
    return { sl with heap, fresh := x + 1, length := sl.length + 1 }
  | none => return { sl with heap, fresh := x + 1, tail := some x, length := sl.length + 1 }

/-! ### Deletion -/

/-- `x` is taken out of level `i`, on which the search for it stopped at `u`. -/
def unlink (h : Heap α) (x u : Id) (i : Nat) : Option (Heap α) := do
  let l ← link h u i
  if l.forward = some x then
    let lx ← link h x i
    setLink h u i ⟨lx.forward, l.span + (lx.span - 1)⟩
  else
    setLink h u i { l with span := l.span - 1 }

/-- The levels on which the header has no successor are given up, down to the first. -/
def shrink (h : Heap α) (header : Id) : Nat → Option Nat
  | i + 2 => do
    let l ← link h header (i + 1)
    if l.forward = none then shrink h header (i + 1) else return i + 2
  | level => some level

/-- The node behind the one that is taken out points back past it; with no node behind, the tail moves back. -/
def bypass (h : Heap α) (tail forward backward : Option Id) : Option (Heap α × Option Id) :=
  match forward with
  | some y => do
    let h ← setBackward h y backward
    return (h, tail)
  | none => some (h, backward)

def slDeleteNode (sl : Skiplist α) (x : Id) (update : List Id) : Option (Skiplist α) := do
  let heap ← (List.range sl.level).foldlM (fun h i => do
    let u ← update[i]?
    unlink h x u i) sl.heap
  let l ← link heap x 0
  let node ← heap x
  let (heap, tail) ← bypass heap sl.tail l.forward node.backward
  let level ← shrink heap sl.header sl.level
  return { sl with heap, tail, level, length := sl.length - 1 }

def slDelete [LinearOrder α] (sl : Skiplist α) (score : α) (obj : Obj) : Option (Bool × Skiplist α) := do
  let path ← descend sl.heap (fun _ _ y => ahead (· < 0) sl.heap score obj y) (fun _ _ => ()) (sl.length + 1) sl.level
    sl.header ()
  let (x, _) ← path[0]?
  let l ← link sl.heap x 0
  match l.forward with
  | none => return (false, sl)
  | some x =>
    let node ← sl.heap x
    let same ← if score = node.score then node.obj.map (equalslObj · obj) else some false
    if same then
      let sl ← slDeleteNode sl x (path.map Prod.fst)
      let heap ← slFreeNode sl.heap x
      return (true, { sl with heap })
    else
      return (false, sl)

/-- The loop of `slDeleteByRank` from the node `x` on: the members it hands to `cb`, in this order. -/
def slDeleteByRankFrom (update : List Id) (last : UInt32) :
    Nat → Option Id → Nat → Skiplist α → Option (List Obj × Skiplist α)
  | _, none, _, sl => some ([], sl)
  | 0, some _, _, _ => none
  | fuel + 1, some x, traversed, sl =>
    if traversed ≤ last.toNat then do
      let next ← link sl.heap x 0
      let sl ← slDeleteNode sl x update
      let node ← sl.heap x
      let obj ← node.obj
      let heap ← slFreeNode sl.heap x
      let (removed, sl) ← slDeleteByRankFrom update last fuel next.forward (traversed + 1) { sl with heap }
      return (obj :: removed, sl)
    else
      some ([], sl)

/-- `slDeleteByRank` returns how many members it handed to `cb`; here these are the members. -/
def slDeleteByRank (sl : Skiplist α) (start last : UInt32) : Option (List Obj × Skiplist α) := do
  let path ← descend sl.heap (fun crossed span _ => some (crossed + span.toNat < start.toNat))
    (fun crossed span => crossed + span.toNat) (sl.length + 1) sl.level sl.header 0
  let (x, traversed) ← path[0]?
  let l ← link sl.heap x 0
  slDeleteByRankFrom (path.map Prod.fst) last (sl.length + 1) l.forward (traversed + 1) sl

/-! ### Queries -/

/-- `slGetRank`; 0 where the element is not found. -/
def slGetRank [LinearOrder α] (sl : Skiplist α) (score : α) (o : Obj) : Option Nat := do
  let found ← seek sl.heap (fun _ _ y => ahead (· ≤ 0) sl.heap score o y) (fun crossed span => crossed + span.toNat)
    (fun x _ => do
      let node ← sl.heap x
      return node.obj.any fun obj => equalslObj obj o) (sl.length + 1) sl.level sl.header 0
  return (found.map Prod.snd).getD 0

def slGetNodeByRank (sl : Skiplist α) (rank : Nat) : Option (Option Id) :=
  if rank = 0 ∨ sl.length < rank then some none
  else do
    let found ← seek sl.heap (fun crossed span _ => some (crossed + span.toNat ≤ rank))
      (fun crossed span => crossed + span.toNat) (fun _ crossed => some (crossed = rank)) (sl.length + 1) sl.level
      sl.header 0
    return found.map Prod.fst

def slIsInRange [LinearOrder α] (sl : Skiplist α) (min max : α) : Option Bool :=
  if max < min then some false
  else match sl.tail with
  | none => some false
  | some tail => do
    let node ← sl.heap tail
    if node.score < min then return false
    else
      let l ← link sl.heap sl.header 0
      match l.forward with
      | none => return false
      | some x =>
        let node ← sl.heap x
        return !decide (max < node.score)

/-- The node a search by score stops at. -/
def stopAt (sl : Skiplist α) (go : α → Bool) : Option Id := do
  let path ← descend sl.heap (fun _ _ y => (sl.heap y).map fun node => go node.score) (fun _ _ => ()) (sl.length + 1)
    sl.level sl.header ()
  let (x, _) ← path[0]?
  return x

def slFirstInRange [LinearOrder α] (sl : Skiplist α) (min max : α) : Option (Option Id) := do
  if ← slIsInRange sl min max then
    let x ← stopAt sl (· < min)
    let l ← link sl.heap x 0
    return l.forward
  else
    return none

def slLastInRange [LinearOrder α] (sl : Skiplist α) (min max : α) : Option (Option Id) := do
  if ← slIsInRange sl min max then
    let x ← stopAt sl (· ≤ max)
    return some x
  else
    return none

end

end SkynetServer.Sl
