import SiteConfig.Step

/-!
# Graphs of steps

A step graph holds steps in the order in which they were added, and which of them
have to run before which others. Each step is filed under the **item** that it
changes; an item that was added before is not added again, and an order that names
an item outside the graph does not count.

A graph without a cycle is put in order by Kahn's method: of the steps whose
predecessors have all run, the one added first is the next
(`SiteConfig.StepGraph.order?`). A graph with a cycle has no order; its cycles are
the sets of steps that lead to one another (`SiteConfig.StepGraph.cycles`).
-/

namespace SiteConfig

/-- What a step changes. -/
inductive Item where
  | document (name : String)
  | extension (e : Extension)
  deriving DecidableEq, Repr

/-- What a dependency points at. Contents are not part of an import. -/
def Item.ofDependency? (kind : DependencyKind) (name : String) : Option Item :=
  match kind with
  | .module => some (.extension (.module name))
  | .theme => some (.extension (.theme name))
  | .config => some (.document name)
  | .content => none

/-- Steps by their items, in the order of adding, and pairs of positions of which
the first has to run before the second. -/
structure StepGraph where
  nodes : List (Item × Step)
  edges : List (Nat × Nat)
  deriving DecidableEq, Repr

namespace StepGraph

/-- The graph without steps. -/
def empty : StepGraph := ⟨[], []⟩

/-- The position of an item. -/
def index? (g : StepGraph) (i : Item) : Option Nat := g.nodes.findIdx? (·.1 == i)

/-- Adds a step under an item that is not there yet. -/
def add (g : StepGraph) (i : Item) (s : Step) : StepGraph :=
  if g.nodes.any (·.1 == i) then g else { g with nodes := g.nodes ++ [(i, s)] }

/-- Lets one item run before another one, when both are in the graph. -/
def before (g : StepGraph) (first second : Item) : StepGraph :=
  match g.index? first, g.index? second with
  | some a, some b =>
    if g.edges.contains (a, b) then g else { g with edges := g.edges ++ [(a, b)] }
  | _, _ => g

/-- The number of steps. -/
def size (g : StepGraph) : Nat := g.nodes.length

/-- The step at a position. -/
def step? (g : StepGraph) (n : Nat) : Option Step := (g.nodes[n]?).map (·.2)

/-- The positions that directly follow one, in the order in which that was said. -/
def successors (g : StepGraph) (n : Nat) : List Nat :=
  (g.edges.filter (·.1 == n)).map (·.2)

/-- The number of positions that directly precede one. -/
def inDegree (g : StepGraph) (n : Nat) : Nat := (g.edges.filter (·.2 == n)).length

/-! ### Kahn's method -/

/-- How far the ordering has come: for each position how many predecessors have not
run, the positions that can run next in increasing order, and those that have run,
the last one first. -/
structure Frontier where
  waiting : List Nat
  ready : List Nat
  done : List Nat
  deriving DecidableEq, Repr

/-- The beginning: every position without predecessors is ready. -/
def start (g : StepGraph) : Frontier :=
  let waiting := (List.range g.size).map g.inDegree
  { waiting, ready := (List.range g.size).filter fun n => g.inDegree n == 0, done := [] }

/-- Puts a position among the ready ones, in increasing order. -/
def insertReady (n : Nat) : List Nat → List Nat
  | [] => [n]
  | m :: r => if n < m then n :: m :: r else m :: insertReady n r

/-- One predecessor of a position has run. -/
def Frontier.release (f : Frontier) (n : Nat) : Frontier :=
  let left := f.waiting.getD n 0 - 1
  { f with
    waiting := f.waiting.set n left
    ready := if left = 0 then insertReady n f.ready else f.ready }

/-- Runs the first ready position, if there is one. -/
def Frontier.advance (g : StepGraph) (f : Frontier) : Option Frontier :=
  match f.ready with
  | [] => none
  | n :: r => some ((g.successors n).foldl Frontier.release { f with ready := r, done := n :: f.done })

/-- Runs ready positions until none is left; `fuel` bounds their number. -/
def drain (g : StepGraph) : Nat → Frontier → Frontier
  | 0, f => f
  | fuel + 1, f =>
    match f.advance g with
    | some f => drain g fuel f
    | none => f

/-- The positions in the order of running. -/
def orderedPositions (g : StepGraph) : List Nat := (g.drain g.size g.start).done.reverse

/-- **The steps in order**, unless some cannot run. -/
def order? (g : StepGraph) : Option (List Step) :=
  let positions := g.orderedPositions
  if positions.length < g.size then none else some (positions.filterMap g.step?)

/-! ### Cycles -/

/-- What a walk through the graph has seen and what it has left behind, the last one
first. -/
structure Walk where
  seen : List Nat
  left : List Nat

/-- Walks from a position along the edges, those said last first, and leaves each
position after all that follow it. -/
def walk (g : StepGraph) : Nat → Walk → Nat → Walk
  | 0, w, _ => w
  | fuel + 1, w, n =>
    if w.seen.contains n then w
    else
      let inner := (g.successors n).reverse.foldl (walk g fuel) { w with seen := n :: w.seen }
      { inner with left := n :: inner.left }

/-- All positions in the order in which a walk leaves them. -/
def leavingOrder (g : StepGraph) : List Nat :=
  ((List.range g.size).foldl (walk g g.size) ⟨[], []⟩).left.reverse

/-- The positions that can be reached from one, itself included. -/
def reachable (g : StepGraph) (n : Nat) : List Nat := (g.walk g.size ⟨[], []⟩ n).seen

/-- Whether two positions lead to each other. -/
def connected (g : StepGraph) (a b : Nat) : Bool :=
  (g.reachable a).contains b && (g.reachable b).contains a

/-- The sets of positions that lead to one another, in the order in which a walk
leaves the last position of each. -/
def componentsOf (g : StepGraph) : List Nat → List (List Nat)
  | [] => []
  | n :: r =>
    if r.any (g.connected n) then g.componentsOf r
    else ((List.range g.size).filter (g.connected n)) :: g.componentsOf r

/-- Whether a set of positions is a cycle: several positions, or one before itself. -/
def isCycle (g : StepGraph) (members : List Nat) : Bool :=
  match members with
  | [n] => g.edges.contains (n, n)
  | l => 1 < l.length

/-- What the steps at some positions act on, in order. -/
def subjects (g : StepGraph) (members : List Nat) : List String :=
  (members.filterMap fun n => (g.step? n).map (·.subject)).mergeSort (fun a b => !(b < a : Bool))

/-- **The cycles**, each by the subjects of its steps. -/
def cycles (g : StepGraph) : List (List String) :=
  ((g.componentsOf g.leavingOrder).filter g.isCycle).map g.subjects

end StepGraph

end SiteConfig
