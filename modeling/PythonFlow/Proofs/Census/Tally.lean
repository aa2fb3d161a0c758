import PythonFlow.Proofs.Census.Followed

/-!
# Counting what a visit makes

A gauge counts instructions by their element and the name they write, and nodes that were cut off. What
a visit adds to a gauge does not depend on the sketch it begins with: the rule of a node adds the
instructions that `instances` lists, and the rest comes from the nodes it follows. The joins of a
condition are the exception, for they are made only where something is pending; a gauge that counts
visits therefore must not see them.
-/

set_option autoImplicit false

namespace PythonFlow

def InstructionKind.written : InstructionKind → Option String
  | .write name => some name
  | _ => none

namespace InstructionKind

@[simp] theorem written_plain : InstructionKind.plain.written = none := rfl

@[simp] theorem written_write (name : String) : (InstructionKind.write name).written = some name :=
  rfl

@[simp] theorem written_conditional (c : Option NodeId) (b : Bool) :
    (InstructionKind.conditional c b).written = none := rfl

end InstructionKind

namespace SyntaxTree
variable (t : SyntaxTree)

def bodyEntry (p : NodeId) : NodeId := (t.body p).getD p

/-- The instructions that the rule of `s` makes for `s` itself, with the names they write. -/
def instances (s : NodeId) : List (NodeId × Option String) :=
  match t.kind s with
  | .functionDef | .classDef => [(s, t.name s)]
  | .target | .parameter | .importBinding => (t.name s).toList.map fun name => (s, some name)
  | .comprehension => [(s, none)]
  | k => if k.isStatement then [(s, none)] else []

/-- The parts of `s` for which its rule makes an instruction. The joins of conditions are left out. -/
def landmarks (s : NodeId) : List NodeId :=
  match t.kind s with
  | .ifStatement => (t.ifParts s).tail ++ (t.ifParts s).map t.bodyEntry ++ (t.elsePart s).toList
  | .whileLoop | .forLoop => (t.body s).toList ++ (t.elsePart s).toList
  | .tryStatement =>
    (t.tryPart s).toList ++ ((t.elsePart s).toList ++ (t.exceptParts s ++ (t.finallyPart s).toList))
  | .comprehension =>
    (t.comprehensionIfs s).flatMap fun c => (t.condition c).toList ++ (t.condition c).toList
  | _ => []

end SyntaxTree

namespace Sketch

structure Gauge where
  entry : NodeId → Option String → Bool
  cut : NodeId → Bool
  /-- Whether it sees writes for no node. -/
  stray : Bool

namespace Gauge
variable (m : Gauge)

def sees : Option NodeId × InstructionKind → Bool
  | (some el, kind) => m.entry el kind.written
  | (none, kind) => m.stray && kind.written.isSome

def of (k : Sketch) : Nat := k.made.countP m.sees + k.truncated.countP m.cut

def weight (el : NodeId) (name : Option String) : Nat := if m.entry el name then 1 else 0

def count (entries : List (NodeId × Option String)) : Nat :=
  entries.countP fun x => m.entry x.1 x.2

def plain (nodes : List NodeId) : Nat := nodes.countP fun n => m.entry n none

@[simp] theorem plain_nil : m.plain [] = 0 := rfl

@[simp] theorem plain_cons (n : NodeId) (ns : List NodeId) :
    m.plain (n :: ns) = m.weight n none + m.plain ns := by
  simp only [plain, weight, List.countP_cons]
  omega

@[simp] theorem plain_append (ns ns' : List NodeId) :
    m.plain (ns ++ ns') = m.plain ns + m.plain ns' := by
  simp [plain]

theorem count_single (n : NodeId) (name : Option String) :
    m.count [(n, name)] = m.weight n name := by
  unfold count weight
  rw [List.countP_singleton]

/-- What the rule of `s` adds by itself. -/
def own (t : SyntaxTree) (s : NodeId) : Nat := m.count (t.instances s) + m.plain (t.landmarks s)

@[simp] theorem of_place (k : Sketch) (t : SyntaxTree) (el : NodeId) (kind : InstructionKind) :
    m.of (k.place t (some el) kind) = m.of k + m.weight el kind.written := by
  simp only [of, place, List.countP_append, List.countP_singleton, weight]
  show _ + (if m.entry el kind.written = true then 1 else 0) + _ = _
  omega

@[simp] theorem of_start (k : Sketch) (t : SyntaxTree) (el : NodeId) :
    m.of (k.start t el) = m.of k + m.weight el none := m.of_place k t el .plain

@[simp] theorem of_moved (k : Sketch) (c : Option InstructionId) : m.of (k.moved c) = m.of k := rfl

@[simp] theorem of_linked (k : Sketch) (x : InstructionId) (l : List InstructionId) :
    m.of (k.linked x l) = m.of k := rfl

@[simp] theorem of_pended (k : Sketch) (o : Option NodeId) (l : List InstructionId) :
    m.of (k.pended o l) = m.of k := rfl

@[simp] theorem of_drained (k : Sketch) (t : SyntaxTree) (n : NodeId) :
    m.of (k.drained t n) = m.of k := rfl

@[simp] theorem of_rescoped (k : Sketch) (t : SyntaxTree) (n : NodeId) (o : Option NodeId) :
    m.of (k.rescoped t n o) = m.of k := rfl

@[simp] theorem of_checked (k : Sketch) (t : SyntaxTree) (x : InstructionId) :
    m.of (k.checked t x) = m.of k := rfl

@[simp] theorem of_settled (k : Sketch) (fate : PendingEdge → Fate) :
    m.of (k.settled fate) = m.of k := rfl

/-- The gauge does not see the instruction in which what is pending in a condition meets. -/
def Blind (t : SyntaxTree) (s : NodeId) : Prop :=
  ∀ c, (t.kind c).isTerm = true → t.Holds s c → m.entry c none = false

end Gauge

def total (n : NodeId → Nat) : List NodeId → Nat
  | [] => 0
  | c :: cs => n c + total n cs

@[simp] theorem total_nil (n : NodeId → Nat) : total n [] = 0 := rfl

@[simp] theorem total_cons (n : NodeId → Nat) (c : NodeId) (cs : List NodeId) :
    total n (c :: cs) = n c + total n cs := rfl

@[simp] theorem total_append (n : NodeId → Nat) (cs ds : List NodeId) :
    total n (cs ++ ds) = total n cs + total n ds := by
  induction cs with
  | nil => simp
  | cons c cs ih =>
    simp only [List.cons_append, total_cons, ih]
    omega

def Adds (m : Gauge) (V : Visitor) (n : NodeId → Nat) (nodes : List NodeId) : Prop :=
  ∀ c ∈ nodes, ∀ k, m.of (V c k) = m.of k + n c

section rules
variable {t : SyntaxTree} {s : NodeId} {V : Visitor} {m : Gauge} {n : NodeId → Nat} {k : Sketch}

theorem Adds.subset {cs ds : List NodeId} (h : Adds m V n ds) (hsub : ∀ c ∈ cs, c ∈ ds) :
    Adds m V n cs := fun c hc => h c (hsub c hc)

theorem Adds.left {cs ds : List NodeId} (h : Adds m V n (cs ++ ds)) : Adds m V n cs :=
  h.subset fun _ hc => List.mem_append_left ds hc

theorem Adds.right {cs ds : List NodeId} (h : Adds m V n (cs ++ ds)) : Adds m V n ds :=
  h.subset fun _ hc => List.mem_append_right cs hc

theorem of_each {cs : List NodeId} (h : Adds m V n cs) (k : Sketch) :
    m.of (each V cs k) = m.of k + total n cs := by
  induction cs generalizing k with
  | nil => rfl
  | cons c cs ih =>
    rw [each, List.foldl_cons]
    have hrest := ih (h.subset fun d hd => List.mem_cons_of_mem c hd) (V c k)
    rw [each] at hrest
    rw [hrest, h c List.mem_cons_self, total_cons]
    omega

theorem of_sequence {cs : List NodeId} (h : Adds m V n cs) :
    m.of (sequence t V s cs k) = m.of k + m.weight s none + total n cs := by
  rw [sequence, of_each h, Gauge.of_start]

theorem of_definition (name? : t.kind s = .functionDef ∨ t.kind s = .classDef) :
    m.of (definition t s k) = m.of k + m.own t s := by
  have hown : m.own t s = m.weight s (t.name s) := by
    rcases name? with hk | hk <;>
      simp [Gauge.own, SyntaxTree.instances, SyntaxTree.landmarks, hk, Gauge.count_single]
  rw [hown]
  unfold definition
  split
  · next name hname => simp [hname]
  · next hname => simp [hname]

theorem of_binding (hk : t.kind s = .target ∨ t.kind s = .parameter ∨ t.kind s = .importBinding)
    (h : Adds m V n (t.followed s)) :
    m.of (binding t V s k) = m.of k + m.own t s + total n (t.followed s) := by
  have hown : m.own t s = m.count ((t.name s).toList.map fun name => (s, some name)) := by
    rcases hk with hk | hk | hk <;>
      simp [Gauge.own, SyntaxTree.instances, SyntaxTree.landmarks, hk]
  have hfollowed : t.followed s = if (t.name s).isSome then [] else t.children s := by
    rcases hk with hk | hk | hk <;> simp [SyntaxTree.followed, hk]
  rw [hfollowed] at h ⊢
  rw [hown]
  unfold binding
  split
  · next name hname => simp [hname, Gauge.count_single]
  · next hname =>
    rw [hname] at h ⊢
    exact of_each h k

theorem of_leaving {k : Sketch} (h : Adds m V n (t.children s)) :
    m.of (leaving t V s k) = m.of k + m.weight s none + total n (t.children s) := by
  simp [leaving, of_sequence h]

theorem of_break : m.of (breakJump t s k) = m.of k + m.weight s none := by
  unfold breakJump
  split <;> simp

theorem of_continue : m.of (continueJump t s k) = m.of k + m.weight s none := by
  unfold continueJump
  split <;> simp

section conditions
variable {c : NodeId} (hblind : m.entry c none = false)
include hblind

theorem of_joined : m.of (joined t c k) = m.of k := by
  unfold joined
  split <;> simp [Gauge.weight, hblind]

end conditions

theorem of_conditioned {o : Option NodeId} (hblind : ∀ c, o = some c → m.entry c none = false)
    (h : Adds m V n o.toList) : m.of (conditioned t V o k) = m.of k + total n o.toList := by
  cases o with
  | none => rfl
  | some c =>
    rw [conditioned, of_joined (hblind c rfl), h c (by simp)]
    simp

section conditional
variable (hblind : ∀ p ∈ t.ifParts s, ∀ c, t.condition p = some c → m.entry c none = false)

theorem of_part_body {p : NodeId} (h : Adds m V n (t.followedInPart p)) :
    m.of (partBody t V p k) =
      m.of k + m.weight (t.bodyEntry p) none + total n (t.body p).toList := by
  rw [partBody, of_each (h.right) _, Gauge.of_place]
  rfl

theorem of_part {p : NodeId} (first : Bool) (head : Option InstructionId) (last : Option NodeId)
    (hb : ∀ c, t.condition p = some c → m.entry c none = false)
    (h : Adds m V n (t.followedInPart p)) :
    m.of (partDone t V s p (asked t V first head last p k)) =
      m.of k + (if first then 0 else m.weight p none) + m.weight (t.bodyEntry p) none +
        total n (t.followedInPart p) := by
  have hentry : m.of (partEntry t first head last p k) =
      m.of k + (if first then 0 else m.weight p none) := by
    unfold partEntry
    split <;> simp
  have hasked : m.of (asked t V first head last p k) =
      m.of k + (if first then 0 else m.weight p none) + total n (t.condition p).toList := by
    rw [asked, of_conditioned hb h.left, hentry]
  rw [partDone, partLeft, Gauge.of_pended, Gauge.of_rescoped, of_part_body h, hasked,
    SyntaxTree.followedInPart, total_append]
  omega

include hblind

theorem of_parts (head : Option InstructionId) (last : Option NodeId) (ps : List NodeId)
    (hps : ∀ p ∈ ps, p ∈ t.ifParts s) (h : Adds m V n (ps.flatMap t.followedInPart)) :
    m.of (ifParts t V s false head last ps k).1 =
      m.of k + m.plain (ps ++ ps.map t.bodyEntry) + total n (ps.flatMap t.followedInPart) := by
  induction ps generalizing k head last with
  | nil => rfl
  | cons p ps ih =>
    rw [List.flatMap_cons] at h
    rw [ifParts, ih _ _ (fun q hq => hps q (by simp [hq])) h.right,
      of_part false head last (hblind p (hps p (by simp))) h.left]
    simp
    omega

theorem of_conditional (hk : t.kind s = .ifStatement) (h : Adds m V n (t.followed s)) :
    m.of (conditional t V s k) = m.of k + m.own t s + total n (t.followed s) := by
  have hfollowed : t.followed s = (t.ifParts s).flatMap t.followedInPart ++ (t.elsePart s).toList := by
    simp [SyntaxTree.followed, hk]
  have hown : m.own t s = m.weight s none +
      m.plain ((t.ifParts s).tail ++ (t.ifParts s).map t.bodyEntry ++ (t.elsePart s).toList) := by
    simp [Gauge.own, SyntaxTree.instances, SyntaxTree.landmarks, SyntaxKind.isStatement, hk,
      Gauge.count_single]
  rw [hfollowed] at h ⊢
  rw [hown]
  have hparts : m.of (ifParts t V s true (some k.next) none (t.ifParts s) (k.start t s)).1 =
      m.of k + m.weight s none + (m.plain (t.ifParts s).tail +
        m.plain ((t.ifParts s).map t.bodyEntry)) +
          total n ((t.ifParts s).flatMap t.followedInPart) := by
    cases hps : t.ifParts s with
    | nil => simp [ifParts]
    | cons p ps =>
      rw [hps, List.flatMap_cons] at h
      rw [ifParts, of_parts hblind _ _ ps (fun q hq => by simp [hps, hq]) h.left.right,
        of_part true _ _ (hblind p (by simp [hps])) h.left.left]
      simp
      omega
  unfold conditional
  dsimp only
  unfold ifElse
  split
  · next part hpart =>
    rw [hpart] at h
    rw [hpart]
    simp only [Gauge.of_moved, Gauge.of_pended, h.right part (by simp), Gauge.of_place, hparts,
      InstructionKind.written_conditional, Option.toList_some, Gauge.plain_append, Gauge.plain_cons,
      Gauge.plain_nil, total_append, total_cons, total_nil]
    omega
  · next hpart =>
    rw [hpart]
    simp only [Gauge.of_moved, Gauge.of_pended, hparts, Option.toList_none, List.append_nil,
      Gauge.plain_append]
    omega

end conditional

section loops

theorem of_skipped (head : Option InstructionId) : m.of (skipped t s head k) = m.of k := by
  unfold skipped
  split <;> rfl

theorem of_while (hk : t.kind s = .whileLoop) (h : Adds m V n (t.followed s))
    (hblind : ∀ c, t.condition s = some c → m.entry c none = false) :
    m.of (whileLoop t V s k) = m.of k + m.own t s + total n (t.followed s) := by
  have hfollowed : t.followed s = t.followedInPart s ++ (t.elsePart s).toList := by
    simp [SyntaxTree.followed, hk]
  have hown : m.own t s =
      m.weight s none + m.plain ((t.body s).toList ++ (t.elsePart s).toList) := by
    simp [Gauge.own, SyntaxTree.instances, SyntaxTree.landmarks, SyntaxKind.isStatement, hk,
      Gauge.count_single]
  rw [hfollowed] at h ⊢
  have hasked : m.of (whileAsked t V s k) =
      m.of k + m.weight s none + total n (t.condition s).toList := by
    rw [whileAsked, of_conditioned hblind h.left.left, Gauge.of_start]
  have hrounds : m.of (whileRounds t V s k) = m.of k + m.weight s none +
      total n (t.condition s).toList + m.plain (t.body s).toList + total n (t.body s).toList := by
    unfold whileRounds whileBody
    cases hb : t.body s with
    | none => simp [of_skipped, hasked]
    | some b =>
      have hV := h.left.right b (by simp [hb])
      simp [hV, of_skipped, hasked]
  have hexit : m.of (whileExit t V s k) = m.of (whileRounds t V s k) +
      m.plain (t.elsePart s).toList + total n (t.elsePart s).toList := by
    unfold whileExit whileElse
    cases he : t.elsePart s with
    | none => simp
    | some e =>
      have hV := h.right e (by simp [he])
      simp [hV]
  rw [whileLoop, Gauge.of_checked, Gauge.of_moved, hexit, hrounds, hown]
  simp only [SyntaxTree.followedInPart, total_append, Gauge.plain_append]
  omega

theorem of_for (hk : t.kind s = .forLoop) (h : Adds m V n (t.followed s)) :
    m.of (forLoop t V s k) = m.of k + m.own t s + total n (t.followed s) := by
  have hfollowed : t.followed s =
      (t.iterable s).toList ++ (t.followedInRound s ++ (t.elsePart s).toList) := by
    simp [SyntaxTree.followed, hk]
  have hown : m.own t s =
      m.weight s none + m.plain ((t.body s).toList ++ (t.elsePart s).toList) := by
    simp [Gauge.own, SyntaxTree.instances, SyntaxTree.landmarks, SyntaxKind.isStatement, hk,
      Gauge.count_single]
  rw [hfollowed] at h ⊢
  have hasked : m.of (forAsked t V s k) =
      m.of k + m.weight s none + total n (t.iterable s).toList := by
    rw [forAsked, of_each h.left, Gauge.of_start]
  have hrounds : m.of (forRounds t V s k).1 = m.of (forAsked t V s k) +
      m.plain (t.body s).toList + total n (t.followedInRound s) := by
    have hround := h.right.left
    unfold SyntaxTree.followedInRound at hround ⊢
    unfold forRounds forBody closeRound
    cases hb : t.body s with
    | none => simp [of_skipped]
    | some b =>
      rw [hb] at hround
      have hV := hround.right b (by simp)
      dsimp only
      split <;> simp [hV, of_each hround.left, of_skipped] <;> omega
  have hexit : m.of (forExit t V s k) = m.of (forRounds t V s k).1 +
      m.plain (t.elsePart s).toList + total n (t.elsePart s).toList := by
    unfold forExit forElse
    cases he : t.elsePart s with
    | none => simp
    | some e =>
      have hV := h.right.right e (by simp [he])
      simp [hV]
  rw [forLoop, Gauge.of_moved, hexit, hrounds, hasked, hown]
  simp only [total_append, Gauge.plain_append]
  omega

end loops

section tries

theorem of_handlers (entry : InstructionId) (exits : List InstructionId) (ps : List NodeId)
    (h : Adds m V n ps) (k : Sketch) :
    m.of (handlers t V s entry exits ps k).1 = m.of k + m.plain ps + total n ps := by
  induction ps generalizing k with
  | nil => rfl
  | cons p ps ih =>
    rw [handlers]
    dsimp only
    rw [ih (h.subset fun q hq => by simp [hq]), handler]
    simp only [Gauge.of_pended, Gauge.of_drained, h p (by simp), Gauge.of_linked, Gauge.of_start,
      Gauge.of_moved, Gauge.plain_cons, total_cons]
    omega

theorem of_tried (h : Adds m V n (t.tryPart s).toList) :
    m.of (tryTried t V s k).1 = m.of k + m.weight s none +
      m.plain (t.tryPart s).toList + total n (t.tryPart s).toList := by
  unfold tryTried tryBody
  cases hp : t.tryPart s with
  | none => simp
  | some p =>
    have hV := h p (by simp [hp])
    simp [hV]

theorem of_others (h : Adds m V n (t.elsePart s).toList) :
    m.of (tryOthers t V s k) = m.of (tryTried t V s k).1 +
      m.plain (t.elsePart s).toList + total n (t.elsePart s).toList := by
  unfold tryOthers tryElse
  cases hp : t.elsePart s with
  | none => simp
  | some p =>
    have hV := h p (by simp [hp])
    simp [hV]

theorem of_caught (h : Adds m V n (t.exceptParts s)) :
    m.of (tryCaught t V s k).1 = m.of (tryOthers t V s k) +
      m.plain (t.exceptParts s) + total n (t.exceptParts s) := by
  rw [tryCaught, of_handlers _ _ _ h]

theorem of_last (h : Adds m V n (t.finallyPart s).toList) :
    m.of (tryLast t V s k).1 = m.of (tryCaught t V s k).1 +
      m.plain (t.finallyPart s).toList + total n (t.finallyPart s).toList := by
  unfold tryLast finallyClause
  cases hp : t.finallyPart s with
  | none => simp
  | some p =>
    have hV := h p (by simp [hp])
    simp [hV]

theorem of_try (hk : t.kind s = .tryStatement) (h : Adds m V n (t.followed s)) :
    m.of (tryStatement t V s k) = m.of k + m.own t s + total n (t.followed s) := by
  have hfollowed : t.followed s = (t.tryPart s).toList ++ ((t.elsePart s).toList ++
      (t.exceptParts s ++ (t.finallyPart s).toList)) := by
    simp [SyntaxTree.followed, hk]
  have hown : m.own t s = m.weight s none + m.plain (t.followed s) := by
    rw [hfollowed]
    simp [Gauge.own, SyntaxTree.instances, SyntaxTree.landmarks, SyntaxKind.isStatement, hk,
      Gauge.count_single]
  rw [hown]
  rw [hfollowed] at h ⊢
  rw [tryStatement, Gauge.of_moved, Gauge.of_settled, of_last h.right.right.right,
    of_caught h.right.right.left, of_others h.right.left, of_tried h.left]
  simp only [total_append, Gauge.plain_append]
  omega

end tries

section comprehensions

theorem of_filter {clause : NodeId} (h : Adds m V n (t.condition clause).toList) :
    m.of (filterClause t V s clause k) = m.of k +
      m.plain ((t.condition clause).toList ++ (t.condition clause).toList) +
        total n (t.condition clause).toList := by
  unfold filterClause
  cases hc : t.condition clause with
  | none => rfl
  | some c =>
    have hV := h c (by simp [hc])
    simp [hV]
    omega

theorem of_filters (clauses : List NodeId)
    (h : Adds m V n (clauses.flatMap fun c => (t.condition c).toList)) (k : Sketch) :
    m.of (each (filterClause t V s) clauses k) = m.of k +
      m.plain (clauses.flatMap fun c => (t.condition c).toList ++ (t.condition c).toList) +
        total n (clauses.flatMap fun c => (t.condition c).toList) := by
  induction clauses generalizing k with
  | nil => rfl
  | cons c clauses ih =>
    rw [List.flatMap_cons] at h
    rw [each, List.foldl_cons]
    have hrest := ih h.right (filterClause t V s c k)
    rw [each] at hrest
    rw [hrest, of_filter h.left]
    simp only [List.flatMap_cons, Gauge.plain_append, total_append]
    omega

theorem of_for_clauses (clauses : List NodeId)
    (h : Adds m V n (clauses.flatMap t.followedInClause)) (k : Sketch) :
    m.of (each (forClause t V) clauses k) =
      m.of k + total n (clauses.flatMap t.followedInClause) := by
  induction clauses generalizing k with
  | nil => rfl
  | cons c clauses ih =>
    rw [List.flatMap_cons] at h
    rw [each, List.foldl_cons]
    have hrest := ih h.right (forClause t V c k)
    rw [each] at hrest
    have hclause : m.of (forClause t V c k) = m.of k + total n (t.followedInClause c) := by
      rw [forClause, ← each_append]
      exact of_each h.left k
    rw [hrest, hclause, List.flatMap_cons, total_append]
    omega

theorem of_comprehension (hk : t.kind s = .comprehension) (h : Adds m V n (t.followed s)) :
    m.of (comprehension t V s k) = m.of k + m.own t s + total n (t.followed s) := by
  have hfollowed : t.followed s =
      (t.comprehensionIfs s).flatMap (fun c => (t.condition c).toList) ++
        ((t.comprehensionFors s).flatMap t.followedInClause ++ (t.comprehensionResult s).toList) := by
    simp [SyntaxTree.followed, hk]
  have hown : m.own t s = m.weight s none + m.plain ((t.comprehensionIfs s).flatMap
      fun c => (t.condition c).toList ++ (t.condition c).toList) := by
    simp [Gauge.own, SyntaxTree.instances, SyntaxTree.landmarks, hk, Gauge.count_single]
  rw [hfollowed] at h ⊢
  rw [comprehension, of_each h.right.right, of_for_clauses _ h.right.left, of_filters _ h.left, Gauge.of_start, hown]
  simp only [total_append]
  omega

end comprehensions

/-- What the rule of a node adds to a gauge. -/
theorem of_dispatch (hg : t.Grammatical) (hm : t.kind s ≠ .module) (hblind : m.Blind t s)
    (h : Adds m V n (t.followed s)) :
    m.of (dispatch t V s k) = m.of k + m.own t s + total n (t.followed s) := by
  have hseen : ∀ c ∈ t.followed s, (t.kind c).isTerm = true → m.entry c none = false := fun c hc hterm =>
    hblind c hterm (SyntaxTree.holds_of_followed hg.ordered hm hc (holds_self hg.ordered c))
  have hone : t.instances s = [(s, none)] → t.landmarks s = [] → m.own t s = m.weight s none :=
    fun h h' => by rw [Gauge.own, h, h', Gauge.count_single, Gauge.plain_nil, Nat.add_zero]
  have hnone : t.instances s = [] → t.landmarks s = [] → m.own t s = 0 :=
    fun h h' => by rw [Gauge.own, h, h']; rfl
  unfold dispatch
  cases hk : t.kind s
  case functionDef =>
    simp [of_definition (.inl hk), SyntaxTree.followed, hk]
  case classDef =>
    simp [of_definition (.inr hk), SyntaxTree.followed, hk]
  case lambda =>
    rw [hnone (by simp [SyntaxTree.instances, hk, SyntaxKind.isStatement])
      (by simp [SyntaxTree.landmarks, hk])]
    simp [SyntaxTree.followed, hk]
  case target => exact of_binding (.inl hk) h
  case parameter => exact of_binding (.inr (.inl hk)) h
  case importBinding => exact of_binding (.inr (.inr hk)) h
  case ifStatement =>
    refine of_conditional (fun p hp c hc => ?_) hk h
    have hpk := (SyntaxTree.mem_if_parts.1 hp).2
    refine hseen c ?_ (hg.term_condition (hpk.elim .inl fun hp => .inr (.inl hp)) hc)
    simp only [SyntaxTree.followed, hk, List.mem_append, List.mem_flatMap]
    exact .inl ⟨p, hp, SyntaxTree.mem_followed_in_part.2 (.inl hc)⟩
  case whileLoop =>
    refine of_while hk h fun c hc => hseen c ?_ (hg.term_condition (.inr (.inr (.inl hk))) hc)
    simp only [SyntaxTree.followed, hk, List.mem_append]
    exact .inl (SyntaxTree.mem_followed_in_part.2 (.inl hc))
  case forLoop => exact of_for hk h
  case tryStatement => exact of_try hk h
  case comprehension => exact of_comprehension hk h
  case breakJump | continueJump =>
    rw [hone (by simp [SyntaxTree.instances, hk, SyntaxKind.isStatement])
      (by simp [SyntaxTree.landmarks, hk])]
    simp [of_break, of_continue, SyntaxTree.followed, hk]
  case assignment =>
    have hfollowed : t.followed s = (t.assignedValue s).toList ++ t.targets s := by
      simp [SyntaxTree.followed, hk]
    rw [hfollowed] at h ⊢
    rw [hone (by simp [SyntaxTree.instances, hk, SyntaxKind.isStatement])
      (by simp [SyntaxTree.landmarks, hk])]
    exact of_sequence h
  case statement | importStatement =>
    have hfollowed : t.followed s = t.children s := by simp [SyntaxTree.followed, hk]
    rw [hfollowed] at h ⊢
    rw [hone (by simp [SyntaxTree.instances, hk, SyntaxKind.isStatement])
      (by simp [SyntaxTree.landmarks, hk])]
    exact of_sequence h
  case returnExit | raiseExit =>
    have hfollowed : t.followed s = t.children s := by simp [SyntaxTree.followed, hk]
    rw [hfollowed] at h ⊢
    rw [hone (by simp [SyntaxTree.instances, hk, SyntaxKind.isStatement])
      (by simp [SyntaxTree.landmarks, hk])]
    exact of_leaving h
  all_goals
    have hfollowed : t.followed s = t.children s := by simp [SyntaxTree.followed, hk]
    rw [hfollowed] at h ⊢
    rw [hnone (by simp [SyntaxTree.instances, hk, SyntaxKind.isStatement])
      (by simp [SyntaxTree.landmarks, hk])]
    exact of_each h k

end rules
end Sketch
end PythonFlow
