import PythonFlow.Proofs.Census.Tally

/-!
# What a whole visit adds

The share of a node is what its visit adds to a gauge: what its rule adds by itself, and the shares of
the nodes it follows. Where nothing was cut off, a node that stands in the code of the visited one is
reached along exactly one chain of followed nodes, and its instructions are counted once. Only what
stands in the targets of a `for` loop without a body is counted nowhere.
-/

set_option autoImplicit false

namespace PythonFlow

/-- Nodes of these kinds bind the name that they carry. -/
def SyntaxKind.isNaming (k : SyntaxKind) : Bool :=
  k.isBinding || k == functionDef || k == classDef

namespace SyntaxTree
variable {t : SyntaxTree} {s c x y : NodeId}

/-- Where the body of a part is entered the part is in the code, and the entry is no statement. -/
theorem body_entry_held (hg : t.Grammatical) (hk : t.kind s = .ifStatement) {p : NodeId}
    (hp : p ∈ t.ifParts s) : t.Holds s (t.bodyEntry p) ∧ (t.kind (t.bodyEntry p)).isStatement = false := by
  have hs : (t.kind s).isOwner = false := by rw [hk]; rfl
  obtain ⟨hmem, hkp⟩ := mem_if_parts.1 hp
  unfold bodyEntry
  cases hb : t.body p with
  | none =>
    exact ⟨holds_of_child hg.ordered hmem hs (holds_self hg.ordered p),
      by rcases hkp with hkp | hkp <;> simp [hkp, SyntaxKind.isStatement]⟩
  | some b =>
    have hko : (t.kind p).isOwner = false := by rcases hkp with hkp | hkp <;> rw [hkp] <;> rfl
    exact ⟨holds_of_child hg.ordered hmem hs
      (holds_of_child hg.ordered (mem_body hb).1 hko (holds_self hg.ordered b)),
      by simp [hg.kind_body (hkp.imp_right .inl) hb, SyntaxKind.isStatement]⟩

/-- The parts for which a rule makes instructions stand in the code of its node, and are no
statements. -/
theorem landmark_held (hg : t.Grammatical) (h : y ∈ t.landmarks s) :
    t.Holds s y ∧ (t.kind y).isStatement = false := by
  have hchild : ∀ {y}, y ∈ t.children s → (t.kind s).isOwner = false → t.Holds s y :=
    fun hy hs => holds_of_child hg.ordered hy hs (holds_self hg.ordered _)
  have helse : ∀ {e}, t.elsePart s = some e → (t.kind e).isStatement = false :=
    fun he => by rw [(mem_else_part he).2]; rfl
  unfold landmarks at h
  split at h
  · next hk =>
    have hs : (t.kind s).isOwner = false := by rw [hk]; rfl
    simp only [List.mem_append, List.mem_map, Option.mem_toList] at h
    rcases h with (hp | ⟨p, hp, rfl⟩) | he
    · obtain ⟨hmem, hkp⟩ := mem_if_parts.1 (List.mem_of_mem_tail hp)
      exact ⟨hchild hmem hs, by rcases hkp with hkp | hkp <;> rw [hkp] <;> rfl⟩
    · exact body_entry_held hg hk hp
    · exact ⟨hchild (mem_else_part he).1 hs, helse he⟩
  case h_2 hk | h_3 hk =>
    have hs : (t.kind s).isOwner = false := by rw [hk]; rfl
    simp only [List.mem_append, Option.mem_toList] at h
    rcases h with hb | he
    · have hblock := hg.kind_body (.inr (.inr (by rw [hk]; rfl))) hb
      exact ⟨hchild (mem_body hb).1 hs, by rw [hblock]; rfl⟩
    · exact ⟨hchild (mem_else_part he).1 hs, helse he⟩
  case h_4 hk =>
    have hs : (t.kind s).isOwner = false := by rw [hk]; rfl
    simp only [List.mem_append, Option.mem_toList] at h
    rcases h with hp | he | hp | hp
    · exact ⟨hchild (mem_try_part hp).1 hs, by rw [(mem_try_part hp).2]; rfl⟩
    · exact ⟨hchild (mem_else_part he).1 hs, helse he⟩
    · exact ⟨hchild (mem_except_parts.1 hp).1 hs, by rw [(mem_except_parts.1 hp).2]; rfl⟩
    · exact ⟨hchild (mem_finally_part hp).1 hs, by rw [(mem_finally_part hp).2]; rfl⟩
  case h_5 hk =>
    simp only [List.mem_flatMap, List.mem_append, Option.mem_toList, or_self] at h
    obtain ⟨p, hp, hc⟩ := h
    obtain ⟨hmem, hkp⟩ := mem_comprehension_ifs.1 hp
    have hterm := hg.term_condition (.inr (.inr (.inr hkp))) hc
    exact ⟨holds_of_child hg.ordered hmem (by rw [hk]; rfl)
      (holds_of_child hg.ordered (mem_condition hc).1 (by rw [hkp]; rfl) (holds_self hg.ordered y)),
      not_statement_of_quiet (is_quiet_of_term hterm)⟩
  case h_6 => cases h

theorem instances_self {e : NodeId × Option String} (h : e ∈ t.instances s) : e.1 = s := by
  unfold instances at h
  split at h
  case h_6 => simpa using congrArg Prod.fst (List.mem_singleton.1 h)
  case h_7 =>
    split at h
    · exact congrArg Prod.fst (List.mem_singleton.1 h)
    · cases h
  all_goals
    first
      | exact congrArg Prod.fst (List.mem_singleton.1 h)
      | obtain ⟨name, -, rfl⟩ := List.mem_map.1 h; rfl

/-- A statement has one instruction from its own rule. -/
theorem instances_statement (h : (t.kind s).isStatement = true) :
    ∃ name, t.instances s = [(s, name)] := by
  unfold instances
  split
  case h_1 | h_2 => exact ⟨_, rfl⟩
  case h_7 => exact ⟨none, by rw [if_pos h]⟩
  all_goals
    next hk =>
    rw [hk] at h
    cases h

theorem instances_written {name : String} (h : (x, some name) ∈ t.instances s) :
    x = s ∧ (t.kind s).isNaming = true ∧ t.name s = some name := by
  refine ⟨instances_self h, ?_⟩
  unfold instances at h
  split at h
  case h_6 => simp at h
  case h_7 => simp at h
  case h_1 hk | h_2 hk =>
    rw [hk]
    exact ⟨rfl, (congrArg Prod.snd (List.mem_singleton.1 h)).symm⟩
  all_goals
    next hk =>
    obtain ⟨n, hn, heq⟩ := List.mem_map.1 h
    rw [hk]
    exact ⟨rfl, (Option.mem_toList.1 hn).trans (congrArg Prod.snd heq)⟩

theorem instances_named {name : String} (hk : (t.kind s).isNaming = true) (hn : t.name s = some name) :
    t.instances s = [(s, some name)] := by
  unfold instances
  split
  case h_1 | h_2 => rw [hn]
  case h_3 | h_4 | h_5 => rw [hn]; rfl
  case h_6 hk' =>
    rw [hk'] at hk
    cases hk
  case h_7 =>
    cases hk' : t.kind s <;> simp_all [SyntaxKind.isNaming, SyntaxKind.isBinding]

/-- A followed node is strictly under no node under `s`, apart from the parts that the rule opens. -/
theorem above_followed (hg : t.Grammatical) {l : NodeId} (hc : c ∈ t.followed s) (hcl : t.Inside c l)
    (hls : t.Below l s) (hopen : (t.kind l).isOpened = false) : l = s := by
  rcases followed_cases hc with hc | ⟨p, hp, hkp, hc⟩
  · exact hg.ordered.below_antisymm hls
      (hg.ordered.below_of_inside_parent (hg.ordered.parent_of_mem hc) hcl)
  · have hpl := hg.ordered.below_of_inside_parent (hg.ordered.parent_of_mem hc) hcl
    by_cases heq : p = l
    · rw [← heq, hkp] at hopen
      cases hopen
    · exact hg.ordered.below_antisymm hls
        (hg.ordered.below_of_inside_parent (hg.ordered.parent_of_mem hp) ⟨hpl, heq⟩)

/-- The rule of a `for` loop without a body follows none of its targets. -/
theorem not_loses_followed (hg : t.Grammatical) (hlx : t.Loses s x) (hc : c ∈ t.followed s) :
    ¬ t.Below x c := by
  intro hx
  obtain ⟨hk, hbody, d, hd, hxd⟩ := hlx
  obtain ⟨hd, hrole⟩ := mem_targets.1 hd
  have hchild : c ∈ t.children s ∧ t.role c ≠ .target := by
    simp only [followed, hk, followedInRound, hbody, List.nil_append, List.mem_append,
      Option.mem_toList] at hc
    rcases hc with hc | hc
    · exact ⟨(mem_iterable hc).1, by simp [(mem_iterable hc).2]⟩
    · exact ⟨(mem_else_part hc).1, by simp [hg.role_else_part (by rw [hk]; rfl) hc]⟩
  have heq := hg.ordered.siblings_apart (hg.ordered.parent_of_mem hchild.1) (hg.ordered.parent_of_mem hd)
    hx hxd
  exact hchild.2 (heq ▸ hrole)

/-- On the way to what a loop loses lies the loop. -/
theorem loses_below (hg : t.Grammatical) {l : NodeId} (hlx : t.Loses l x) (hl : t.Holds s l)
    (hc : c ∈ t.followed s) (hx : t.Below x c) : t.Holds c l := by
  have hxl : t.Below x l := by
    obtain ⟨-, -, d, hd, hxd⟩ := hlx
    exact hg.ordered.below_trans hxd (Sketch.inside_of_mem hg.ordered (mem_targets.1 hd).1).1
  by_cases hcl : t.Inside c l
  · have hls := above_followed hg hc hcl hl.1 (by rw [hlx.1]; rfl)
    subst hls
    exact absurd hx (not_loses_followed hg hlx hc)
  · refine holds_of_below (inside_of_followed hg.ordered hc).1 hg.ordered hl ?_
    rcases hg.ordered.below_total hx hxl with h | h
    · by_cases heq : c = l
      · exact heq ▸ t.below_refl c
      · exact absurd ⟨h, heq⟩ hcl
    · exact h

end SyntaxTree

namespace Sketch

/-- No visit is cut off where so many levels of syntax are followed. -/
def Fits (t : SyntaxTree) : Nat → NodeId → Prop
  | 0, _ => False
  | depth + 1, s => ∀ c ∈ t.followed s, Fits t depth c

namespace Gauge
variable (m : Gauge)

def share (t : SyntaxTree) : Nat → NodeId → Nat
  | 0, s => m.weight s none + if m.cut s then 1 else 0
  | depth + 1, s => m.own t s + total (share t depth) (t.followed s)

def cuts : Gauge := ⟨fun _ _ => false, fun _ => true, false⟩

def seeing (stray : Bool) (entry : NodeId → Option String → Bool) : Gauge :=
  ⟨entry, fun _ => false, stray⟩

end Gauge

section
variable {t : SyntaxTree} {m : Gauge} {s c x : NodeId} {depth : Nat}

theorem Gauge.Blind.followed (hg : t.Grammatical) (hm : t.kind s ≠ .module) (h : m.Blind t s)
    (hc : c ∈ t.followed s) : m.Blind t c :=
  fun d hterm hd => h d hterm (SyntaxTree.holds_of_followed hg.ordered hm hc hd)

theorem of_visit (hg : t.Grammatical) (hm : t.kind s ≠ .module) (hblind : m.Blind t s) (depth : Nat)
    (k : Sketch) : m.of (visit t depth s k) = m.of k + m.share t depth s := by
  induction depth generalizing s k with
  | zero =>
    have hcut : m.of { k with truncated := s :: k.truncated } = m.of k + if m.cut s then 1 else 0 := by
      simp only [Gauge.of, List.countP_cons]
      omega
    rw [visit, Gauge.of_start, hcut, Gauge.share]
    omega
  | succ depth ih =>
    have hfollowed : Adds m (visit t depth) (m.share t depth) (t.followed s) := fun c hc k =>
      ih (SyntaxTree.kind_of_followed hg hc) (hblind.followed hg hm hc) k
    rw [visit, of_dispatch hg hm hblind hfollowed, Gauge.share]
    omega

/-- The code of an owner. -/
theorem of_build (hg : t.Grammatical) {owner : NodeId} (ho : (t.kind owner).isOwner = true)
    (hblind : ∀ c ∈ t.children owner, m.Blind t c) :
    m.of (build t depth owner) = total (m.share t depth) (t.children owner) := by
  have hadds : Adds m (visit t depth) (m.share t depth) (t.children owner) := fun c hc k =>
    of_visit hg (hg.kind_of_child hc) (hblind c hc) depth k
  have hopen : m.of (opening t) = 0 := by simp [Gauge.of, place, blank, Gauge.sees]
  have hclose : ∀ k : Sketch, m.of (k.place t none .plain) = m.of k := fun k => by
    simp [Gauge.of, place, Gauge.sees]
  rw [build, hclose, interior, visitOwner, if_pos ho, of_each hadds, hopen]
  exact Nat.zero_add _

theorem total_eq_zero {n : NodeId → Nat} {cs : List NodeId} :
    total n cs = 0 ↔ ∀ c ∈ cs, n c = 0 := by
  induction cs with
  | nil => simp
  | cons c cs ih => simp [ih]

/-- Among nodes that stand apart one alone counts for what stands below it. -/
theorem total_of_apart {n : NodeId → Nat} {cs : List NodeId} (hapart : cs.Pairwise (Apart t))
    (hc : c ∈ cs) (hother : ∀ d ∈ cs, Apart t c d → n d = 0) : total n cs = n c := by
  induction cs with
  | nil => cases hc
  | cons d ds ih =>
    obtain ⟨hd, hds⟩ := List.pairwise_cons.1 hapart
    rw [total_cons]
    rcases List.mem_cons.1 hc with rfl | hc
    · have hrest : total n ds = 0 := total_eq_zero.2 fun e he => hother e (by simp [he]) (hd e he)
      omega
    · have hrest := ih hds hc fun e he => hother e (by simp [he])
      have hfirst : n d = 0 := hother d (by simp) (apart_symm (hd c hc))
      omega

theorem fits_of_share (h : Gauge.cuts.share t depth s = 0) : Fits t depth s := by
  induction depth generalizing s with
  | zero => cases h
  | succ depth ih =>
    rw [Gauge.share, Nat.add_eq_zero_iff] at h
    exact fun c hc => ih (total_eq_zero.1 h.2 c hc)

section seeing
variable {stray : Bool} {entry : NodeId → Option String → Bool}

theorem own_eq_zero (hinst : ∀ e ∈ t.instances s, entry e.1 e.2 = false)
    (hmark : ∀ y ∈ t.landmarks s, entry y none = false) : (Gauge.seeing stray entry).own t s = 0 := by
  have h1 : (Gauge.seeing stray entry).count (t.instances s) = 0 :=
    List.countP_eq_zero.2 fun e he => by simp [Gauge.seeing, hinst e he]
  have h2 : (Gauge.seeing stray entry).plain (t.landmarks s) = 0 :=
    List.countP_eq_zero.2 fun y hy => by simp [Gauge.seeing, hmark y hy]
  rw [Gauge.own, h1, h2]

/-- What is not made for the code of a node, its visit does not add. -/
theorem share_none (hg : t.Grammatical) (hm : t.kind s ≠ .module)
    (h : ∀ y, t.Holds s y → entry y none = false ∧ ∀ e ∈ t.instances y, entry e.1 e.2 = false) :
    (Gauge.seeing stray entry).share t depth s = 0 := by
  have hself := h s (holds_self hg.ordered s)
  induction depth generalizing s with
  | zero => simp [Gauge.share, Gauge.weight, Gauge.seeing, hself.1]
  | succ depth ih =>
    rw [Gauge.share, own_eq_zero hself.2 fun y hy => (h y (SyntaxTree.landmark_held hg hy).1).1]
    rw [Nat.zero_add]
    refine total_eq_zero.2 fun c hc => ?_
    have hc' : ∀ y, t.Holds c y → t.Holds s y := fun y =>
      SyntaxTree.holds_of_followed hg.ordered hm hc
    exact ih (SyntaxTree.kind_of_followed hg hc) (fun y hy => h y (hc' y hy))
      (h c (hc' c (holds_self hg.ordered c)))

variable (hsee : ∀ y name, y ≠ x → entry y name = false)
include hsee

theorem unseen_of_ne {y : NodeId} (hne : y ≠ x) :
    entry y none = false ∧ ∀ e ∈ t.instances y, entry e.1 e.2 = false :=
  ⟨hsee y none hne, fun e he => hsee e.1 e.2 (SyntaxTree.instances_self he ▸ hne)⟩

variable (hmark : (t.kind x).isStatement = true ∨ entry x none = false)
include hmark

theorem landmark_unseen (hg : t.Grammatical) {y : NodeId} (hy : y ∈ t.landmarks s) :
    entry y none = false := by
  by_cases heq : y = x
  · subst heq
    refine hmark.resolve_left fun hstat => ?_
    rw [(SyntaxTree.landmark_held hg hy).2] at hstat
    cases hstat
  · exact hsee y none heq

theorem own_of_ne (hg : t.Grammatical) (hne : s ≠ x) : (Gauge.seeing stray entry).own t s = 0 :=
  own_eq_zero (unseen_of_ne hsee hne).2 fun _ hy => landmark_unseen hsee hmark hg hy

/-- What stands in the code of a node is counted once, by its own rule. -/
theorem share_once (hg : t.Grammatical) (hslots : t.Slotted) (hone : t.SingleClauses)
    (hm : t.kind s ≠ .module) (hfits : Fits t depth s) (hx : t.Holds s x)
    (hopen : (t.kind x).isOpened = false) (hlost : ∀ l, t.Holds s l → ¬ t.Loses l x) :
    (Gauge.seeing stray entry).share t depth s = (Gauge.seeing stray entry).count (t.instances x) := by
  induction depth generalizing s with
  | zero => exact hfits.elim
  | succ depth ih =>
    rw [Gauge.share]
    by_cases hsx : s = x
    · subst hsx
      have hmarks : (Gauge.seeing stray entry).plain (t.landmarks s) = 0 :=
        List.countP_eq_zero.2 fun y hy => by simp [Gauge.seeing, landmark_unseen hsee hmark hg hy]
      have hunder : total ((Gauge.seeing stray entry).share t depth) (t.followed s) = 0 := by
        refine total_eq_zero.2 fun c hc => share_none hg (SyntaxTree.kind_of_followed hg hc) fun y hy => ?_
        have hne : y ≠ s := by
          rintro rfl
          exact hg.ordered.not_below_of_inside (SyntaxTree.inside_of_followed hg.ordered hc) hy.1
        exact unseen_of_ne hsee hne
      rw [Gauge.own, hmarks, hunder]
      rfl
    · obtain ⟨c, hc, hxc⟩ := SyntaxTree.exists_followed hg hslots hone hx (Ne.symm hsx) hopen
        (hlost s (holds_self hg.ordered s))
      have hholds := SyntaxTree.holds_of_below (SyntaxTree.inside_of_followed hg.ordered hc).1 hg.ordered
        hx hxc
      rw [own_of_ne hsee hmark hg hsx, Nat.zero_add,
        total_of_apart (SyntaxTree.apart_followed hg s) hc fun d hd hapart => ?_]
      · exact ih (SyntaxTree.kind_of_followed hg hc) (hfits c hc) hholds fun l hl =>
          hlost l (SyntaxTree.holds_of_followed hg.ordered hm hc hl)
      · refine share_none hg (SyntaxTree.kind_of_followed hg hd) fun y hy => ?_
        have hne : y ≠ x := by
          rintro rfl
          exact hapart y hxc hy.1
        exact unseen_of_ne hsee hne

/-- What a `for` loop without a body loses is counted nowhere. -/
theorem share_lost (hg : t.Grammatical) (hm : t.kind s ≠ .module) {l : NodeId} (hl : t.Holds s l)
    (hlost : t.Loses l x) : (Gauge.seeing stray entry).share t depth s = 0 := by
  have hxl : t.Inside x l := by
    obtain ⟨-, -, d, hd, hxd⟩ := hlost
    exact hg.ordered.inside_of_below_inside hxd (inside_of_mem hg.ordered (SyntaxTree.mem_targets.1 hd).1)
  induction depth generalizing s with
  | zero =>
    have hne : s ≠ x := fun h => hg.ordered.not_below_of_inside hxl (h ▸ hl.1)
    simp [Gauge.share, Gauge.weight, Gauge.seeing, hsee s none hne]
  | succ depth ih =>
    have hne : s ≠ x := fun h => hg.ordered.not_below_of_inside hxl (h ▸ hl.1)
    rw [Gauge.share, own_of_ne hsee hmark hg hne, Nat.zero_add]
    refine total_eq_zero.2 fun c hc => ?_
    have hkind := SyntaxTree.kind_of_followed hg hc
    by_cases hxc : t.Below x c
    · exact ih hkind (SyntaxTree.loses_below hg hlost hl hc hxc)
    · refine share_none hg hkind fun y hy => ?_
      exact unseen_of_ne hsee fun h => hxc (h ▸ hy.1)

end seeing
end
end Sketch
end PythonFlow
