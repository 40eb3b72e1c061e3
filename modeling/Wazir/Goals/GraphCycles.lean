import Wazir.Goals.Contracts
import Wazir.Shared.Strings

/-! Dependency cycles (`findCycles` in `graph/validation.ts`): strongly connected components by an
iterative depth-first search, and one concrete cycle out of each by a breadth-first search. The
loops run on fuel: each turn takes one edge or leaves one node for good. -/

namespace Wazir.Goals

/-- What the graph checks look at in a target. -/
structure TargetNode where
  id : TargetId
  dependsOn : List TargetId
  deriving DecidableEq

namespace FindCycles

/-- `new Set(targets.map((t) => t.id))` -/
def distinctIds (targets : List TargetNode) : List TargetId :=
  targets.foldl (fun ids t => if t.id ∈ ids then ids else ids ++ [t.id]) []

/-- Self-dependencies and unknown ids are left out; of two targets with one id the last counts. -/
def edgesOf (targets : List TargetNode) (id : TargetId) : List TargetId :=
  match targets.reverse.find? fun t => t.id = id with
  | none => []
  | some t => t.dependsOn.filter fun d => d ≠ id ∧ d ∈ distinctIds targets

structure Search where
  counter : ℕ
  index : Table TargetId ℕ
  low : Table TargetId ℕ
  /-- The top first; `onStack` is membership here. -/
  stack : List TargetId
  components : List (List TargetId)

structure Frame where
  node : TargetId
  edge : ℕ

def Search.visit (s : Search) (node : TargetId) : Search :=
  { s with
    counter := s.counter + 1
    index := s.index.insert node s.counter
    low := s.low.insert node s.counter
    stack := node :: s.stack }

def Search.lower (s : Search) (node : TargetId) (value : Option ℕ) : Search :=
  match s.low.lookup node, value with
  | some low, some v => { s with low := s.low.insert node (min low v) }
  | _, _ => s

/-- Take the component of a finished root off the stack. -/
def Search.close (s : Search) (node : TargetId) : Search :=
  if s.low.lookup node = s.index.lookup node then
    let comp := s.stack.takeWhile (· ≠ node) ++ [node]
    { s with
      stack := s.stack.drop comp.length
      components := if 1 < comp.length then s.components ++ [comp] else s.components }
  else s

section Loops

variable (edges : TargetId → List TargetId)

/-- One turn of the inner `while`. -/
def turn (frame : Frame) (rest : List Frame) (s : Search) : List Frame × Search :=
  match (edges frame.node)[frame.edge]? with
  | some next =>
    let work := ⟨frame.node, frame.edge + 1⟩ :: rest
    if (s.index.lookup next).isNone then (⟨next, 0⟩ :: work, s.visit next)
    else if next ∈ s.stack then (work, s.lower frame.node (s.index.lookup next))
    else (work, s)
  | none =>
    let s := match rest with
      | [] => s
      | parent :: _ => s.lower parent.node (s.low.lookup frame.node)
    (rest, s.close frame.node)

def search : ℕ → List Frame → Search → Search
  | 0, _, s => s
  | _, [], s => s
  | fuel + 1, frame :: rest, s =>
    let next := turn edges frame rest s
    search fuel next.1 next.2

def components (ids : List TargetId) : List (List TargetId) :=
  let fuel := ids.length + (ids.map fun id => (edges id).length).sum + 1
  let start : Search := ⟨0, ∅, ∅, [], []⟩
  ((sortBy compareStrings ids).foldl (fun s root =>
    if (s.index.lookup root).isSome then s else search edges fuel [⟨root, 0⟩] (s.visit root))
    start).components

/-! The breadth-first search back to where it started. -/

structure Walk where
  queue : List TargetId
  prev : Table TargetId TargetId
  visited : List TargetId

/-- The way from `start` to a node, by its predecessors. -/
def wayTo (prev : Table TargetId TargetId) (start : TargetId) : ℕ → TargetId → List TargetId
  | 0, _ => []
  | fuel + 1, node =>
    if node = start then []
    else match prev.lookup node with
      | none => [node]
      | some p => wayTo prev start fuel p ++ [node]

/-- The edges of one node: a cycle is found, or the walk goes on. -/
def explore (members : List TargetId) (start current : TargetId) :
    List TargetId → Walk → List TargetId ⊕ Walk
  | [], w => .inr w
  | d :: rest, w =>
    if d ∉ members then explore members start current rest w
    else if d = start then
      .inl (start :: (wayTo w.prev start (members.length + 1) current ++ [start]))
    else if d ∈ w.visited then explore members start current rest w
    else explore members start current rest
      ⟨w.queue ++ [d], w.prev.insert d current, d :: w.visited⟩

def cycleFrom (members : List TargetId) (start : TargetId) : ℕ → Walk → Option (List TargetId)
  | 0, _ => none
  | fuel + 1, w =>
    match w.queue with
    | [] => none
    | current :: queue =>
      match explore members start current (edges current) { w with queue := queue } with
      | .inl path => some path
      | .inr w => cycleFrom members start fuel w

def cycleIn (component : List TargetId) : List TargetId :=
  match sortBy compareStrings component with
  | [] => []
  | start :: _ =>
    (cycleFrom edges component start (component.length + 1) ⟨[start], ∅, [start]⟩).getD
      (component ++ component.take 1)

end Loops

end FindCycles

open FindCycles in
/-- One representative path for each strongly connected component, as `[a, b, ..., a]`. -/
def findCycles (localeCompare : String → String → Ordering) (targets : List TargetNode) :
    List (List TargetId) :=
  sortBy (fun a b => localeCompare (a.headD "") (b.headD ""))
    ((components (edgesOf targets) (distinctIds targets)).map (cycleIn (edgesOf targets)))

end Wazir.Goals
