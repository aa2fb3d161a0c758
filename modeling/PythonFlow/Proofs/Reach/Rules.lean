import PythonFlow.Proofs.Reach.Quiet

/-!
# The rules keep instructions alive

`Reaches` is what a visit does for the instructions that it makes, given the headers that its
`continue` jumps may go to. Each rule does the same if the visits below the node do.
-/

set_option autoImplicit false

namespace PythonFlow.Sketch
variable {t : SyntaxTree} {s : NodeId} {V : Visitor} {k k0 : Sketch} {n : Nat}
  {P : InstructionId → Prop}

/-- The headers of the loops above `s` to which a `continue` at or below `s` goes back. -/
def Promised (t : SyntaxTree) (s : NodeId) (k : Sketch) (P : InstructionId → Prop) : Prop :=
  ∀ c l h, t.Below c s → t.kind c = .continueJump → t.enclosingLoop c = some l → t.Inside s l →
    k.latest l = some h → P h

def Reaches (t : SyntaxTree) (V : Visitor) (s : NodeId) : Prop :=
  ∀ k P, Fresh t s k → Promised t s k P → Alive k.size (V s k) P

theorem Promised.weaken {P' : InstructionId → Prop} (h : Promised t s k P) (hP : ∀ y, P y → P' y) :
    Promised t s k P' := fun c l x hc hk hl hin hlatest => hP x (h c l x hc hk hl hin hlatest)

section promised
variable (hg : t.Grammatical) {c : NodeId}
include hg

/-- What is promised above is promised below, with the header of the node itself where that is the
loop of a `continue`. -/
theorem promised_direct (hd : Direct t s c) (hG : k = k0 ∨ Grown t s k0 k) (hs : Fresh t s k0)
    (hp : Promised t s k0 P)
    (hself : ∀ x, t.Below x c → t.kind x = .continueJump → t.enclosingLoop x = some s → P k0.next) :
    Promised t c k P := by
  intro x l h hx hk hl hcl hlatest
  obtain ⟨hin, hloop, -⟩ := hg.ordered.enclosing_loop_above hl
  rcases hd.loop_above hg.ordered hloop hcl with rfl | hsl
  · rcases hG with rfl | hG
    · obtain ⟨hlt, hel⟩ := latest_some hlatest
      exact absurd (t.below_refl s) (hs.bare s (t.below_refl s) (isStatement_of_loop hloop) h s hel)
    · rw [latest_header hG hs hloop] at hlatest
      exact Option.some.inj hlatest ▸ hself x hx hk hl
  · refine hp x l h (hg.ordered.below_trans hx hd.1.1) hk hl hsl ?_
    rcases hG with rfl | hG
    · exact hlatest
    · rw [← hlatest]
      refine (latest_congr hG.element_old fun id h1 h2 hid => ?_).symm
      obtain ⟨y, hy, hys⟩ := hG.element_new id ⟨h1, h2⟩
      obtain rfl : y = l := Option.some.inj (hy.symm.trans hid)
      exact hg.ordered.not_below_of_inside hsl hys

/-- There is no `continue` below a term. -/
theorem promised_quiet (hc : (t.kind c).isQuiet = true) : Promised t c k P := by
  intro x l h hx hk
  have hquiet := hg.quiet_below hc hx
  rw [hk] at hquiet
  cases hquiet

end promised

structure Below (t : SyntaxTree) (V : Visitor) (s : NodeId) : Prop where
  grows : ∀ c, t.Inside c s → Grows t V c
  steady : ∀ c, t.Inside c s → (t.kind c).isQuiet = true → Steady t V c
  reaches : ∀ c, t.Inside c s → Reaches t V c

section visit
variable (hg : t.Grammatical) (hB : Below t V s)
include hg hB

/-- A visit directly below `s` in the course of a visit of `s`. -/
theorem alive_direct {c : NodeId} (hd : Direct t s c) (hG : k = k0 ∨ Grown t s k0 k)
    (hs : Fresh t s k0) (hp : Promised t s k0 P)
    (hself : ∀ x, t.Below x c → t.kind x = .continueJump → t.enclosingLoop x = some s → P k0.next)
    (hf : Fresh t c k) (hn : n ≤ k.size) (h : Alive n k P) : Alive n (V c k) P :=
  alive_visited h hn (hB.grows c hd.1 k hf)
    (hB.reaches c hd.1 k P hf (promised_direct hg hd hG hs hp hself))

theorem alive_quiet {c : NodeId} (hin : t.Inside c s) (hc : (t.kind c).isQuiet = true)
    (hf : Fresh t c k) (hn : n ≤ k.size) (h : Alive n k P) : Alive n (V c k) P :=
  alive_visited h hn (hB.grows c hin k hf) (hB.reaches c hin k P hf (promised_quiet hg hc))

/-- Terms that are visited one after another. -/
theorem alive_each_quiet {cs : List NodeId} (hnodup : cs.Nodup) (hcs : ∀ c ∈ cs, c ∈ t.children s)
    (hquiet : ∀ c ∈ cs, (t.kind c).isQuiet = true) (hf : ∀ c ∈ cs, Fresh t c k)
    (hn : n ≤ k.size) (h : Alive n k P) : Alive n (each V cs k) P := by
  have hin : ∀ c ∈ cs, t.Inside c s := fun c hc => inside_of_mem hg.ordered (hcs c hc)
  obtain ⟨-, hkeeps⟩ := each_keeps hg.ordered (fun c hc => hB.grows c (hin c hc))
    (apart_children hg.ordered hnodup hcs) hf (P := fun k => n ≤ k.size ∧ Alive n k P) ⟨hn, h⟩
    fun c hc k' ⟨hn, h⟩ hfc =>
      ⟨Nat.le_trans hn (hB.grows c (hin c hc) k' hfc).later.size_le,
        alive_quiet hg hB (hin c hc) (hquiet c hc) hfc hn h⟩
  exact hkeeps

section children
variable (hs : Fresh t s k0) (hp : Promised t s k0 P) (hloop : (t.kind s).isLoop = false)
  {cs : List NodeId} (hnodup : cs.Nodup) (hcs : ∀ c ∈ cs, c ∈ t.children s)
include hs hp hloop

omit hB hs hp in
theorem not_loop_of_jump {x : NodeId} (hl : t.enclosingLoop x = some s) : P k0.next := by
  have hls := (hg.ordered.enclosing_loop_above hl).2.1
  rw [hloop] at hls
  cases hls

include hnodup hcs

/-- Children that are visited one after another once the node has been started. -/
theorem alive_each (hG : Grown t s k0 k) (hf : ∀ c ∈ cs, Fresh t c k) (h : Alive k0.size k P) :
    Alive k0.size (each V cs k) P := by
  have hin : ∀ c ∈ cs, t.Inside c s := fun c hc => inside_of_mem hg.ordered (hcs c hc)
  have hdir : ∀ c ∈ cs, Direct t s c := fun c hc => direct_child hg.ordered (hcs c hc)
  obtain ⟨-, hkeeps⟩ := each_keeps hg.ordered (fun c hc => hB.grows c (hin c hc))
    (apart_children hg.ordered hnodup hcs) hf
    (P := fun k => Grown t s k0 k ∧ Alive k0.size k P) ⟨hG, h⟩
    fun c hc k' ⟨hG, h⟩ hfc =>
      ⟨grown_visited hG hg.ordered hs (hdir c hc) (hB.grows c (hin c hc) k' hfc),
        alive_direct hg hB (hdir c hc) (.inr hG) hs hp
          (fun _ _ _ hl => not_loop_of_jump hg hloop hl) hfc hG.later.size_le h⟩
  exact hkeeps

/-- Children that are visited one after another without a start of the node. -/
theorem alive_children (hopen : Open t s) :
    Alive k0.size (each V cs k0) P := by
  have hin : ∀ c ∈ cs, t.Inside c s := fun c hc => inside_of_mem hg.ordered (hcs c hc)
  have hdir : ∀ c ∈ cs, Direct t s c := fun c hc => direct_child hg.ordered (hcs c hc)
  obtain ⟨-, hkeeps⟩ := each_keeps hg.ordered (fun c hc => hB.grows c (hin c hc))
    (apart_children hg.ordered hnodup hcs) (fun c hc => fresh_below hg.ordered hs (hin c hc).1)
    (P := fun k => Visited t s k0 k ∧ Alive k0.size k P) ⟨.inl rfl, alive_start k0 P⟩
    fun c hc k' ⟨hv, h⟩ hfc =>
      ⟨hv.step hg.ordered hs (hdir c hc) hopen (hB.grows c (hin c hc) k' hfc),
        alive_direct hg hB (hdir c hc) (hv.imp_right And.left) hs hp
          (fun _ _ _ hl => not_loop_of_jump hg hloop hl) hfc hv.later.size_le h⟩
  exact hkeeps

end children

section simple
variable (hs : Fresh t s k0) (hp : Promised t s k0 P)
include hs hp

theorem alive_sequence (hloop : (t.kind s).isLoop = false) (hk : t.kind s ≠ .continueJump)
    {cs : List NodeId} (hnodup : cs.Nodup) (hcs : ∀ c ∈ cs, c ∈ t.children s) :
    Alive k0.size (sequence t V s cs k0) P :=
  alive_each hg hB hs hp hloop hnodup hcs (grown_begin hg.ordered hk .plain)
    (fun c hc => fresh_started hg.ordered hs (inside_of_mem hg.ordered (hcs c hc)) .plain)
    (alive_place (alive_start k0 P) (Nat.le_refl _) _ _)

theorem alive_binding (hloop : (t.kind s).isLoop = false)
    (hplain : (t.kind s).isStatement = false) : Alive k0.size (binding t V s k0) P := by
  unfold binding
  cases t.name s with
  | none =>
    exact alive_children hg hB hs hp hloop (hg.ordered.children_nodup s) (fun _ h => h)
      (open_of_plain hplain)
  | some name => exact alive_place (alive_start k0 P) (Nat.le_refl _) _ _

theorem alive_leaving (hloop : (t.kind s).isLoop = false) (hk : t.kind s ≠ .continueJump) :
    Alive k0.size (leaving t V s k0) P := by
  have hsequence := alive_sequence hg hB hs hp hloop hk (hg.ordered.children_nodup s) fun _ h => h
  exact alive_parked (alive_pended (alive_rescoped hsequence s none) none _)
    (parked_pended (fun x hx => Option.mem_toList.2 hx) none) none

omit hg hB hs hp in
theorem alive_break (P : InstructionId → Prop) : Alive k0.size (breakJump t s k0) P := by
  have hstart : Alive k0.size (k0.start t s) P :=
    alive_place (alive_start k0 P) (Nat.le_refl _) _ _
  unfold breakJump
  cases t.enclosingLoop s with
  | none => exact hstart
  | some l =>
    refine alive_parked (alive_pended hstart (some l) [k0.next]) (parked_pended (fun x hx => ?_) _) none
    exact List.mem_singleton.2 (Option.some.inj hx).symm

omit hB hs in
theorem alive_continue (hk : t.kind s = .continueJump) :
    Alive k0.size (continueJump t s k0) P := by
  have hstart : Alive k0.size (k0.start t s) P :=
    alive_place (alive_start k0 P) (Nat.le_refl _) _ _
  unfold continueJump
  cases h : (t.enclosingLoop s).bind (k0.start t s).latest with
  | none => exact hstart
  | some header =>
    obtain ⟨l, hl, hlatest⟩ := Option.bind_eq_some_iff.1 h
    have hin := (hg.ordered.enclosing_loop_above hl).1
    rw [start, latest_started hin] at hlatest
    have hheader := hp s l header (t.below_refl s) hk hl hin hlatest
    refine alive_moved (alive_linked hstart header [k0.next]) fun x _ hx => ?_
    obtain rfl : k0.next = x := Option.some.inj hx
    exact lives_of_edge ((edge_linked _ _ header header _).2 (.inr ⟨by simp, rfl⟩)) hheader

end simple

end visit
end PythonFlow.Sketch
