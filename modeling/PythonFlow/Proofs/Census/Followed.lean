import PythonFlow.Proofs.Frame.Loops
import PythonFlow.Proofs.Frame.Tries
import PythonFlow.Proofs.Frame.Visit
import PythonFlow.Proofs.Trace.Run
import PythonFlow.Proofs.Tree.Slots

/-!
# The nodes that a visit follows

`followed` lists the nodes that the rule of a node visits in turn. They stand apart from one another,
and together they hold whatever stands in the code of the node, with two exceptions. The parts of a
conditional and the clauses of a comprehension are looked into and not visited themselves. The targets
of a `for` loop are visited with its body, so that they are lost where there is none.
-/

set_option autoImplicit false

namespace PythonFlow

namespace SyntaxKind

/-- Parts that the rule of their parent looks into instead of visiting them. -/
def isOpened : SyntaxKind → Bool
  | ifPart | elifPart | comprehensionFor | comprehensionIf => true
  | _ => false

theorem not_owner_of_opened {k : SyntaxKind} (h : k.isOpened = true) : k.isOwner = false := by
  revert h
  cases k <;> simp [isOpened, isOwner]

theorem not_statement_of_opened {k : SyntaxKind} (h : k.isOpened = true) : k.isStatement = false := by
  revert h
  cases k <;> simp [isOpened, isStatement]

/-- No node has a module below it. -/
theorem not_admits_module (k : SyntaxKind) (r : Role) : k.admits .module r = false := by
  cases k <;> rfl

end SyntaxKind

namespace SyntaxTree
variable (t : SyntaxTree)

def followedInPart (p : NodeId) : List NodeId := (t.condition p).toList ++ (t.body p).toList

def followedInClause (c : NodeId) : List NodeId := (t.iterable c).toList ++ t.targets c

def followedInRound (s : NodeId) : List NodeId :=
  match t.body s with
  | some b => t.targets s ++ [b]
  | none => []

/-- The nodes that the rule of `s` visits in turn. -/
def followed (s : NodeId) : List NodeId :=
  match t.kind s with
  | .functionDef | .classDef | .lambda | .breakJump | .continueJump => []
  | .assignment => (t.assignedValue s).toList ++ t.targets s
  | .target | .parameter | .importBinding => if (t.name s).isSome then [] else t.children s
  | .ifStatement => (t.ifParts s).flatMap t.followedInPart ++ (t.elsePart s).toList
  | .whileLoop => t.followedInPart s ++ (t.elsePart s).toList
  | .forLoop => (t.iterable s).toList ++ (t.followedInRound s ++ (t.elsePart s).toList)
  | .tryStatement =>
    (t.tryPart s).toList ++ ((t.elsePart s).toList ++ (t.exceptParts s ++ (t.finallyPart s).toList))
  | .comprehension =>
    (t.comprehensionIfs s).flatMap (fun c => (t.condition c).toList) ++
      ((t.comprehensionFors s).flatMap t.followedInClause ++ (t.comprehensionResult s).toList)
  | _ => t.children s

/-- `x` stands in a target of the `for` loop `l`, which has no body. -/
def Loses (l x : NodeId) : Prop :=
  t.kind l = .forLoop ∧ t.body l = none ∧ ∃ c ∈ t.targets l, t.Below x c

variable {t} {s c x : NodeId}

theorem mem_followed_in_part {p : NodeId} :
    c ∈ t.followedInPart p ↔ t.condition p = some c ∨ t.body p = some c := by
  simp [followedInPart, Option.mem_toList]

theorem mem_followed_in_clause :
    x ∈ t.followedInClause c ↔ t.iterable c = some x ∨ x ∈ t.targets c := by
  simp [followedInClause, Option.mem_toList]

theorem child_of_followed_in_part {p : NodeId} (h : c ∈ t.followedInPart p) : c ∈ t.children p := by
  rcases mem_followed_in_part.1 h with h | h
  · exact (mem_condition h).1
  · exact (mem_body h).1

theorem child_of_followed_in_clause (h : x ∈ t.followedInClause c) : x ∈ t.children c := by
  rcases mem_followed_in_clause.1 h with h | h
  · exact (mem_iterable h).1
  · exact (mem_targets.1 h).1

theorem mem_followed_in_round :
    c ∈ t.followedInRound s ↔ ∃ b, t.body s = some b ∧ (c ∈ t.targets s ∨ c = b) := by
  unfold followedInRound
  cases t.body s <;> simp

/-- What a rule visits is a child, or a child of a part that the rule opens. -/
theorem followed_cases (h : c ∈ t.followed s) :
    c ∈ t.children s ∨ ∃ p ∈ t.children s, (t.kind p).isOpened = true ∧ c ∈ t.children p := by
  unfold followed at h
  split at h
  case h_6 => exact .inl (Sketch.mem_assigned h)
  case h_7 | h_8 | h_9 =>
    split at h
    · cases h
    · exact .inl h
  case h_10 =>
    rcases List.mem_append.1 h with h | h
    · obtain ⟨p, hp, hc⟩ := List.mem_flatMap.1 h
      obtain ⟨hp, hk⟩ := mem_if_parts.1 hp
      exact .inr ⟨p, hp, by rcases hk with hk | hk <;> rw [hk] <;> rfl,
        child_of_followed_in_part hc⟩
    · exact .inl (mem_else_part (Option.mem_toList.1 h)).1
  case h_11 =>
    rcases List.mem_append.1 h with h | h
    · exact .inl (child_of_followed_in_part h)
    · exact .inl (mem_else_part (Option.mem_toList.1 h)).1
  case h_12 =>
    simp only [List.mem_append, Option.mem_toList, mem_followed_in_round] at h
    rcases h with h | ⟨b, hb, h | rfl⟩ | h
    · exact .inl (mem_iterable h).1
    · exact .inl (mem_targets.1 h).1
    · exact .inl (mem_body hb).1
    · exact .inl (mem_else_part h).1
  case h_13 =>
    simp only [List.mem_append, Option.mem_toList] at h
    rcases h with h | h | h | h
    · exact .inl (mem_try_part h).1
    · exact .inl (mem_else_part h).1
    · exact .inl (mem_except_parts.1 h).1
    · exact .inl (mem_finally_part h).1
  case h_14 =>
    simp only [List.mem_append, List.mem_flatMap, Option.mem_toList] at h
    rcases h with ⟨p, hp, h⟩ | ⟨p, hp, h⟩ | h
    · obtain ⟨hp, hk⟩ := mem_comprehension_ifs.1 hp
      exact .inr ⟨p, hp, by rw [hk]; rfl, (mem_condition h).1⟩
    · obtain ⟨hp, hk⟩ := mem_comprehension_fors.1 hp
      exact .inr ⟨p, hp, by rw [hk]; rfl, child_of_followed_in_clause h⟩
    · exact .inl (mem_result h).1
  case h_15 => exact .inl h
  all_goals cases h

theorem followed_of_owner (h : (t.kind s).isOwner = true) (hm : t.kind s ≠ .module) :
    t.followed s = [] := by
  unfold followed
  revert h hm
  cases t.kind s <;> simp [SyntaxKind.isOwner]

theorem inside_of_followed (ho : t.Ordered) (h : c ∈ t.followed s) : t.Inside c s := by
  rcases followed_cases h with hc | ⟨p, hp, -, hc⟩
  · exact Sketch.inside_of_mem ho hc
  · exact ho.inside_of_inside_below (Sketch.inside_of_mem ho hc) (Sketch.inside_of_mem ho hp).1

theorem mem_ids_of_child (ho : t.Ordered) (hc : c ∈ t.children s) : s ∈ t.ids := by
  have hlt := ho.parent_lt (ho.parent_of_mem hc)
  exact mem_ids.2 (Nat.lt_trans hlt (ho.index_lt_size_of_mem hc))

theorem Grammatical.kind_of_child (hg : t.Grammatical) (h : c ∈ t.children s) :
    t.kind c ≠ .module := fun hk => by
  have hadm := hg.admitted h
  rw [hk, SyntaxKind.not_admits_module] at hadm
  cases hadm

theorem kind_of_followed (hg : t.Grammatical) (h : c ∈ t.followed s) : t.kind c ≠ .module := by
  rcases followed_cases h with hc | ⟨p, -, -, hc⟩
  · exact hg.kind_of_child hc
  · exact hg.kind_of_child hc

/-- What a followed node holds is in the code of the node that follows it. -/
theorem holds_of_followed (ho : t.Ordered) (hm : t.kind s ≠ .module) (hc : c ∈ t.followed s)
    (h : t.Holds c x) : t.Holds s x := by
  have hs : (t.kind s).isOwner = false := by
    by_contra howner
    rw [followed_of_owner (by simpa using howner) hm] at hc
    cases hc
  rcases followed_cases hc with hc | ⟨p, hp, hk, hc⟩
  · exact holds_of_child ho hc hs h
  · exact holds_of_child ho hp hs (holds_of_child ho hc (SyntaxKind.not_owner_of_opened hk) h)

/-- A node below a followed one, in the code of the node that follows it. -/
theorem holds_of_below (hc : t.Below c s) (ho : t.Ordered) (h : t.Holds s x)
    (hx : t.Below x c) : t.Holds c x :=
  ⟨hx, fun m hm hmc => h.2 m hm (ho.below_trans hmc hc)⟩

section apart
open Sketch
variable (hg : t.Grammatical)
include hg

theorem apart_in_part {p : NodeId} : (t.followedInPart p).Pairwise (Apart t) := by
  refine apart_children (s := p) hg.ordered ?_ fun c hc => child_of_followed_in_part hc
  refine List.nodup_append.2 ⟨nodup_option _, nodup_option _, fun a ha b hb => ?_⟩
  rintro rfl
  have hra := (mem_condition (Option.mem_toList.1 ha)).2
  rw [(mem_body (Option.mem_toList.1 hb)).2] at hra
  cases hra

/-- Lists of nodes below different children stand apart from one another. -/
theorem apart_flat_map {ps : List NodeId} {f : NodeId → List NodeId} (hnodup : ps.Nodup)
    (hps : ∀ p ∈ ps, p ∈ t.children s) (hf : ∀ p ∈ ps, ∀ c ∈ f p, c ∈ t.children p)
    (hapart : ∀ p ∈ ps, (f p).Pairwise (Apart t)) : (ps.flatMap f).Pairwise (Apart t) := by
  refine List.pairwise_flatMap.2 ⟨hapart, ?_⟩
  refine (apart_children hg.ordered hnodup hps).imp_of_mem fun {p q} hp hq hpq c hc d hd => ?_
  exact apart_below hg.ordered hpq (inside_of_mem hg.ordered (hf p hp c hc)).1
    (inside_of_mem hg.ordered (hf q hq d hd)).1

/-- Children that differ in their slots. -/
theorem apart_append {P Q : NodeId → Prop} {cs ds : List NodeId} (hcs : cs.Pairwise (Apart t))
    (hds : ds.Pairwise (Apart t)) (hP : ∀ c ∈ cs, ∃ p ∈ t.children s, t.Below c p ∧ P p)
    (hQ : ∀ d ∈ ds, ∃ q ∈ t.children s, t.Below d q ∧ Q q) (hne : ∀ p, P p → ¬ Q p) :
    (cs ++ ds).Pairwise (Apart t) := by
  refine List.pairwise_append.2 ⟨hcs, hds, fun c hc d hd => ?_⟩
  obtain ⟨p, hp, hcp, hPp⟩ := hP c hc
  obtain ⟨q, hq, hdq, hQq⟩ := hQ d hd
  exact apart_below hg.ordered (apart_of_ne hg.ordered hp hq fun heq => hne p hPp (heq ▸ hQq)) hcp hdq

omit hg in
theorem apart_option (o : Option NodeId) : o.toList.Pairwise (Apart t) := by
  cases o with
  | none => exact .nil
  | some c => exact List.pairwise_singleton _ c

theorem apart_in_round : (t.followedInRound s).Pairwise (Apart t) := by
  unfold followedInRound
  split
  · next b hb =>
    refine apart_children (s := s) hg.ordered ?_ fun c hc => ?_
    · refine List.nodup_append.2 ⟨nodup_targets hg.ordered s, by simp, fun a ha d hd => ?_⟩
      rintro rfl
      have hrole := (mem_targets.1 ha).2
      rw [List.mem_singleton.1 hd, (mem_body hb).2] at hrole
      cases hrole
    · rcases List.mem_append.1 hc with hc | hc
      · exact (mem_targets.1 hc).1
      · exact List.mem_singleton.1 hc ▸ (mem_body hb).1
  · exact .nil

theorem apart_followed_if :
    ((t.ifParts s).flatMap t.followedInPart ++ (t.elsePart s).toList).Pairwise (Apart t) := by
  apply apart_append (s := s) hg (P := fun p => t.kind p ≠ .elsePart) (Q := fun p => t.kind p = .elsePart)
  · apply apart_flat_map hg ((hg.ordered.children_nodup s).filter _) (s := s)
    · exact fun p hp => (mem_if_parts.1 hp).1
    · exact fun p _ c hc => child_of_followed_in_part hc
    · exact fun p _ => apart_in_part hg
  · exact apart_option _
  · intro c hc
    obtain ⟨p, hp, hc⟩ := List.mem_flatMap.1 hc
    obtain ⟨hp, hk⟩ := mem_if_parts.1 hp
    exact ⟨p, hp, (inside_of_mem hg.ordered (child_of_followed_in_part hc)).1,
      by rcases hk with hk | hk <;> simp [hk]⟩
  · intro d hd
    obtain ⟨hd, hk⟩ := mem_else_part (Option.mem_toList.1 hd)
    exact ⟨d, hd, t.below_refl d, hk⟩
  · exact fun p hp hp' => hp hp'

theorem apart_followed_while (hk : t.kind s = .whileLoop) :
    (t.followedInPart s ++ (t.elsePart s).toList).Pairwise (Apart t) := by
  apply apart_append (s := s) hg (P := fun p => t.role p ≠ .plain) (Q := fun p => t.role p = .plain)
  · exact apart_in_part hg
  · exact apart_option _
  · intro c hc
    rcases mem_followed_in_part.1 hc with hc | hc
    · exact ⟨c, (mem_condition hc).1, t.below_refl c, by simp [(mem_condition hc).2]⟩
    · exact ⟨c, (mem_body hc).1, t.below_refl c, by simp [(mem_body hc).2]⟩
  · intro d hd
    have hd := Option.mem_toList.1 hd
    exact ⟨d, (mem_else_part hd).1, t.below_refl d, hg.role_else_part (by rw [hk]; rfl) hd⟩
  · exact fun p hp hp' => hp hp'

theorem apart_followed_for (hk : t.kind s = .forLoop) :
    ((t.iterable s).toList ++ (t.followedInRound s ++ (t.elsePart s).toList)).Pairwise (Apart t) := by
  have hround : ∀ c ∈ t.followedInRound s, c ∈ t.children s ∧ (t.role c = .target ∨ t.role c = .body) := by
    intro c hc
    obtain ⟨b, hb, hc | rfl⟩ := mem_followed_in_round.1 hc
    · exact ⟨(mem_targets.1 hc).1, .inl (mem_targets.1 hc).2⟩
    · exact ⟨(mem_body hb).1, .inr (mem_body hb).2⟩
  have helse : ∀ d ∈ (t.elsePart s).toList, d ∈ t.children s ∧ t.role d = .plain := by
    intro d hd
    have hd := Option.mem_toList.1 hd
    exact ⟨(mem_else_part hd).1, hg.role_else_part (by rw [hk]; rfl) hd⟩
  apply apart_append (s := s) hg (P := fun p => t.role p = .iterable) (Q := fun p => t.role p ≠ .iterable)
  · exact apart_option _
  · apply apart_append (s := s) hg (P := fun p => t.role p ≠ .plain) (Q := fun p => t.role p = .plain)
    · exact apart_in_round hg
    · exact apart_option _
    · intro c hc
      obtain ⟨hc, hr⟩ := hround c hc
      exact ⟨c, hc, t.below_refl c, by rcases hr with hr | hr <;> simp [hr]⟩
    · exact fun d hd => ⟨d, (helse d hd).1, t.below_refl d, (helse d hd).2⟩
    · exact fun p hp hp' => hp hp'
  · intro c hc
    exact ⟨c, (mem_iterable_list hc).1, t.below_refl c, (mem_iterable_list hc).2⟩
  · intro d hd
    rcases List.mem_append.1 hd with hd | hd
    · obtain ⟨hd, hr⟩ := hround d hd
      exact ⟨d, hd, t.below_refl d, by rcases hr with hr | hr <;> simp [hr]⟩
    · exact ⟨d, (helse d hd).1, t.below_refl d, by simp [(helse d hd).2]⟩
  · exact fun p hp hp' => hp' hp

theorem apart_followed_try :
    ((t.tryPart s).toList ++ ((t.elsePart s).toList ++
      (t.exceptParts s ++ (t.finallyPart s).toList))).Pairwise (Apart t) := by
  refine apart_children (s := s) hg.ordered ?_ fun c hc => ?_
  · have hkind : ∀ {k : SyntaxKind} {c}, c ∈ (t.firstChildOfKind s k).toList → t.kind c = k :=
      fun hc => (mem_of_first_child (Option.mem_toList.1 hc)).2
    refine List.nodup_append.2 ⟨nodup_option _, List.nodup_append.2 ⟨nodup_option _,
      List.nodup_append.2 ⟨(hg.ordered.children_nodup s).filter _, nodup_option _, ?_⟩, ?_⟩, ?_⟩
    · rintro a ha b hb rfl
      have hkb := hkind hb
      rw [(mem_except_parts.1 ha).2] at hkb
      cases hkb
    · rintro a ha b hb rfl
      have hka := hkind ha
      rcases List.mem_append.1 hb with hb | hb
      · rw [(mem_except_parts.1 hb).2] at hka
        cases hka
      · rw [hkind hb] at hka
        cases hka
    · rintro a ha b hb rfl
      have hka := hkind ha
      simp only [List.mem_append] at hb
      rcases hb with hb | hb | hb
      · rw [hkind hb] at hka
        cases hka
      · rw [(mem_except_parts.1 hb).2] at hka
        cases hka
      · rw [hkind hb] at hka
        cases hka
  · simp only [List.mem_append, Option.mem_toList] at hc
    rcases hc with hc | hc | hc | hc
    · exact (mem_try_part hc).1
    · exact (mem_else_part hc).1
    · exact (mem_except_parts.1 hc).1
    · exact (mem_finally_part hc).1

theorem apart_followed_comprehension (hk : t.kind s = .comprehension) :
    ((t.comprehensionIfs s).flatMap (fun c => (t.condition c).toList) ++
      ((t.comprehensionFors s).flatMap t.followedInClause ++
        (t.comprehensionResult s).toList)).Pairwise (Apart t) := by
  have hnodup := hg.ordered.children_nodup s
  have hfors : ∀ c ∈ (t.comprehensionFors s).flatMap t.followedInClause, ∃ p ∈ t.children s,
      t.Below c p ∧ t.kind p = .comprehensionFor := by
    intro c hc
    obtain ⟨p, hp, hc⟩ := List.mem_flatMap.1 hc
    obtain ⟨hp, hkind⟩ := mem_comprehension_fors.1 hp
    exact ⟨p, hp, (inside_of_mem hg.ordered (child_of_followed_in_clause hc)).1, hkind⟩
  have hresult : ∀ d ∈ (t.comprehensionResult s).toList, d ∈ t.children s ∧
      t.kind d ≠ .comprehensionFor ∧ t.kind d ≠ .comprehensionIf := by
    intro d hd
    obtain ⟨hd, hr⟩ := mem_result (Option.mem_toList.1 hd)
    refine ⟨hd, fun hkind => ?_, fun hkind => ?_⟩
    · rw [hg.role_clause hk hd (.inl hkind)] at hr
      cases hr
    · rw [hg.role_clause hk hd (.inr hkind)] at hr
      cases hr
  apply apart_append (s := s) hg (P := fun p => t.kind p = .comprehensionIf)
    (Q := fun p => t.kind p ≠ .comprehensionIf)
  · apply apart_flat_map hg (hnodup.filter _) (s := s)
    · exact fun p hp => (mem_comprehension_ifs.1 hp).1
    · exact fun p _ c hc => (mem_condition (Option.mem_toList.1 hc)).1
    · exact fun p _ => apart_option _
  · apply apart_append (s := s) hg (P := fun p => t.kind p = .comprehensionFor)
      (Q := fun p => t.kind p ≠ .comprehensionFor)
    · apply apart_flat_map hg (hnodup.filter _) (s := s)
      · exact fun p hp => (mem_comprehension_fors.1 hp).1
      · exact fun p _ c hc => child_of_followed_in_clause hc
      · intro p _
        exact apart_children (s := p) hg.ordered (nodup_for_clause hg.ordered p)
          fun c hc => child_of_followed_in_clause hc
    · exact apart_option _
    · exact hfors
    · exact fun d hd => ⟨d, (hresult d hd).1, t.below_refl d, (hresult d hd).2.1⟩
    · exact fun p hp hp' => hp' hp
  · intro c hc
    obtain ⟨p, hp, hc⟩ := List.mem_flatMap.1 hc
    obtain ⟨hp, hkind⟩ := mem_comprehension_ifs.1 hp
    exact ⟨p, hp, (inside_of_mem hg.ordered (mem_condition (Option.mem_toList.1 hc)).1).1, hkind⟩
  · intro d hd
    rcases List.mem_append.1 hd with hd | hd
    · obtain ⟨p, hp, hb, hkind⟩ := hfors d hd
      exact ⟨p, hp, hb, by simp [hkind]⟩
    · exact ⟨d, (hresult d hd).1, t.below_refl d, (hresult d hd).2.2⟩
  · exact fun p hp hp' => hp' hp

theorem apart_followed (s : NodeId) : (t.followed s).Pairwise (Apart t) := by
  have hall : (t.children s).Pairwise (Apart t) :=
    apart_children (s := s) hg.ordered (hg.ordered.children_nodup s) fun _ h => h
  unfold followed
  split
  case h_6 =>
    exact apart_children (s := s) hg.ordered (nodup_assigned hg.ordered s) fun _ h => mem_assigned h
  case h_7 | h_8 | h_9 =>
    split
    · exact .nil
    · exact hall
  case h_10 => exact apart_followed_if hg
  case h_11 hk => exact apart_followed_while hg hk
  case h_12 hk => exact apart_followed_for hg hk
  case h_13 => exact apart_followed_try hg
  case h_14 hk => exact apart_followed_comprehension hg hk
  case h_15 => exact hall
  all_goals exact .nil

end apart

section cover
variable (hg : t.Grammatical) (hslots : t.Slotted)

theorem find_of_unique {l : List NodeId} {p : NodeId → Bool} (hc : c ∈ l) (hp : p c = true)
    (huniq : ∀ d ∈ l, p d = true → d = c) : l.find? p = some c := by
  cases hfind : l.find? p with
  | none => exact absurd hp (List.find?_eq_none.1 hfind c hc)
  | some d => rw [huniq d (List.mem_of_find?_eq_some hfind) (List.find?_some hfind)]

include hslots in
/-- The child that fills a slot which is filled once. -/
theorem child_with_role_of {r : Role} (hc : c ∈ t.children s) (hr : t.role c = r)
    (hclash : ∀ a b, a.2 = r → b.2 = r → (t.kind s).clashes a b = true) :
    t.childWithRole s r = some c := by
  apply find_of_unique hc (by simpa using hr)
  intro d hd hrd
  by_contra hne
  have hfree := hslots hd hc hne
  rw [hclash _ _ (by simpa using hrd) hr] at hfree
  cases hfree

include hslots in
theorem first_child_of {k : SyntaxKind} (hc : c ∈ t.children s) (hk : t.kind c = k)
    (hclash : ∀ d ∈ t.children s, t.kind d = k →
      (t.kind s).clashes (t.kind d, t.role d) (t.kind c, t.role c) = true) :
    t.firstChildOfKind s k = some c := by
  apply find_of_unique hc (by simpa using hk)
  intro d hd hkd
  by_contra hne
  have hfree := hslots hd hc hne
  rw [hclash d hd (by simpa using hkd)] at hfree
  cases hfree

theorem first_child_of_length {k : SyntaxKind} (hc : c ∈ t.children s) (hk : t.kind c = k)
    (hone : (t.childrenOfKind s k).length ≤ 1) : t.firstChildOfKind s k = some c := by
  have hmem : c ∈ t.childrenOfKind s k := mem_children_of_kind.2 ⟨hc, hk⟩
  apply find_of_unique hc (by simpa using hk)
  intro d hd hkd
  have hmem' : d ∈ t.childrenOfKind s k := mem_children_of_kind.2 ⟨hd, by simpa using hkd⟩
  match hl : t.childrenOfKind s k, hone with
  | [], _ => rw [hl] at hmem; cases hmem
  | [a], _ =>
    rw [hl, List.mem_singleton] at hmem hmem'
    exact hmem'.trans hmem.symm

include hg hslots

theorem part_followed {p : NodeId} (hk : t.kind p = .ifPart ∨ t.kind p = .elifPart)
    (hc : c ∈ t.children p) : c ∈ t.followedInPart p := by
  have hadm := hg.admitted hc
  have hclash : ∀ a b, (t.kind p).clashes a b = (a.2 == b.2) := by
    rcases hk with hk | hk <;> rw [hk] <;> exact fun _ _ => rfl
  have hrole : t.role c = .condition ∨ t.role c = .body := by
    rcases hk with hk | hk <;> rw [hk] at hadm <;>
      simp only [SyntaxKind.admits, Bool.or_eq_true, Bool.and_eq_true, beq_iff_eq] at hadm <;>
      exact hadm.imp And.right And.right
  apply mem_followed_in_part.2
  rcases hrole with hr | hr
  · exact .inl (child_with_role_of hslots hc hr fun a b ha hb => by rw [hclash, ha, hb]; rfl)
  · exact .inr (child_with_role_of hslots hc hr fun a b ha hb => by rw [hclash, ha, hb]; rfl)

theorem while_followed (hk : t.kind s = .whileLoop) (hc : c ∈ t.children s) :
    c ∈ t.followedInPart s ++ (t.elsePart s).toList := by
  have hadm := hg.admitted hc
  rw [hk] at hadm
  simp only [SyntaxKind.admits, Bool.or_eq_true, Bool.and_eq_true, beq_iff_eq] at hadm
  have hclash : ∀ a b, (t.kind s).clashes a b = (a.2 == b.2) := by rw [hk]; exact fun _ _ => rfl
  simp only [List.mem_append, mem_followed_in_part, Option.mem_toList]
  rcases hadm with (⟨-, hr⟩ | ⟨-, hr⟩) | ⟨hkind, hr⟩
  · exact .inl (.inl (child_with_role_of hslots hc hr fun a b ha hb => by rw [hclash, ha, hb]; rfl))
  · exact .inl (.inr (child_with_role_of hslots hc hr fun a b ha hb => by rw [hclash, ha, hb]; rfl))
  · refine .inr (first_child_of hslots hc hkind fun d hd hkd => ?_)
    have hadm' := hg.admitted hd
    rw [hk, hkd] at hadm'
    rw [hclash, hr]
    simpa [SyntaxKind.admits, SyntaxKind.isTerm] using hadm'

theorem for_followed (hk : t.kind s = .forLoop) (hc : c ∈ t.children s)
    (hlost : c ∈ t.targets s → t.body s ≠ none) :
    c ∈ (t.iterable s).toList ++ (t.followedInRound s ++ (t.elsePart s).toList) := by
  have hadm := hg.admitted hc
  rw [hk] at hadm
  simp only [SyntaxKind.admits, Bool.or_eq_true, Bool.and_eq_true, beq_iff_eq] at hadm
  have hclash : ∀ a b, (t.kind s).clashes a b = (a.2 == b.2 && a.2 != .target) := by
    rw [hk]; exact fun _ _ => rfl
  simp only [List.mem_append, mem_followed_in_round, Option.mem_toList]
  rcases hadm with (⟨-, hr | hr⟩ | ⟨-, hr⟩) | ⟨hkind, hr⟩
  · exact .inl (child_with_role_of hslots hc hr fun a b ha hb => by rw [hclash, ha, hb]; rfl)
  · have htarget := mem_targets.2 ⟨hc, hr⟩
    obtain ⟨b, hb⟩ := Option.ne_none_iff_exists'.1 (hlost htarget)
    exact .inr (.inl ⟨b, hb, .inl htarget⟩)
  · exact .inr (.inl ⟨c, child_with_role_of hslots hc hr fun a b ha hb => by
      rw [hclash, ha, hb]; rfl, .inr rfl⟩)
  · refine .inr (.inr (first_child_of hslots hc hkind fun d hd hkd => ?_))
    have hadm' := hg.admitted hd
    rw [hk, hkd] at hadm'
    have hplain : t.role d = .plain := by simpa [SyntaxKind.admits, SyntaxKind.isTerm] using hadm'
    rw [hclash, hr, hplain]
    rfl

theorem try_followed (hone : t.SingleClauses) (hk : t.kind s = .tryStatement) (hc : c ∈ t.children s) :
    c ∈ (t.tryPart s).toList ++ ((t.elsePart s).toList ++
      (t.exceptParts s ++ (t.finallyPart s).toList)) := by
  have hadm := hg.admitted hc
  have hid : s ∈ t.ids := mem_ids_of_child hg.ordered hc
  rw [hk] at hadm
  simp only [SyntaxKind.admits, Bool.or_eq_true, beq_iff_eq] at hadm
  simp only [List.mem_append, Option.mem_toList]
  rcases hadm with ((hkind | hkind) | hkind) | hkind
  · refine .inl (first_child_of hslots hc hkind fun d hd hkd => ?_)
    rw [hk, hkind, hkd]
    rfl
  · exact .inr (.inr (.inl (mem_except_parts.2 ⟨hc, hkind⟩)))
  · exact .inr (.inl (first_child_of_length hc hkind (hone.else_once s hid (.inr hk))))
  · exact .inr (.inr (.inr (first_child_of_length hc hkind (hone.finally_once s hid hk))))

theorem assignment_followed (hk : t.kind s = .assignment) (hc : c ∈ t.children s) :
    c ∈ (t.assignedValue s).toList ++ t.targets s := by
  have hadm := hg.admitted hc
  rw [hk] at hadm
  simp only [SyntaxKind.admits, Bool.or_eq_true, Bool.and_eq_true, beq_iff_eq] at hadm
  simp only [List.mem_append, Option.mem_toList]
  rcases hadm.2 with hr | hr
  · refine .inl (child_with_role_of hslots hc hr fun a b ha hb => ?_)
    rw [hk]
    simp [SyntaxKind.clashes, ha, hb]
  · exact .inr (mem_targets.2 ⟨hc, hr⟩)

theorem clause_followed {p : NodeId} (hk : t.kind p = .comprehensionFor) (hc : c ∈ t.children p) :
    c ∈ t.followedInClause p := by
  have hadm := hg.admitted hc
  rw [hk] at hadm
  simp only [SyntaxKind.admits, Bool.or_eq_true, Bool.and_eq_true, beq_iff_eq] at hadm
  apply mem_followed_in_clause.2
  rcases hadm.2 with hr | hr
  · refine .inl (child_with_role_of hslots hc hr fun a b ha hb => ?_)
    rw [hk]
    simp [SyntaxKind.clashes, ha, hb]
  · exact .inr (mem_targets.2 ⟨hc, hr⟩)

theorem filter_followed {p : NodeId} (hk : t.kind p = .comprehensionIf) (hc : c ∈ t.children p) :
    t.condition p = some c := by
  have hadm := hg.admitted hc
  rw [hk] at hadm
  simp only [SyntaxKind.admits, Bool.and_eq_true, beq_iff_eq] at hadm
  refine child_with_role_of hslots hc hadm.2 fun a b ha hb => ?_
  rw [hk]
  simp [SyntaxKind.clashes, ha, hb]

theorem comprehension_followed (hk : t.kind s = .comprehension) {p : NodeId}
    (hp : p ∈ t.children s) (hx : t.Below x p) (hopen : (t.kind x).isOpened = false) :
    ∃ c ∈ (t.comprehensionIfs s).flatMap (fun c => (t.condition c).toList) ++
      ((t.comprehensionFors s).flatMap t.followedInClause ++ (t.comprehensionResult s).toList),
      t.Below x c := by
  have hadm := hg.admitted hp
  rw [hk] at hadm
  simp only [SyntaxKind.admits, Bool.or_eq_true, Bool.and_eq_true, beq_iff_eq] at hadm
  simp only [List.mem_append, List.mem_flatMap, Option.mem_toList]
  have hbelow : (t.kind p).isOpened = true → ∃ c ∈ t.children p, t.Below x c := by
    intro hkp
    obtain ⟨c, hc, hxc⟩ := hg.ordered.exists_child
      ⟨hx, fun heq : x = p => by rw [heq, hkp] at hopen; cases hopen⟩
    exact ⟨c, hg.ordered.mem_children.2 ⟨index_lt_size_of_parent hc, hc⟩, hxc⟩
  rcases hadm with ⟨-, hr⟩ | ⟨hkp | hkp, -⟩
  · refine ⟨p, .inr (.inr ?_), hx⟩
    refine child_with_role_of hslots hp hr fun a b ha hb => ?_
    rw [hk]
    simp [SyntaxKind.clashes, ha, hb]
  · obtain ⟨c, hc, hxc⟩ := hbelow (by rw [hkp]; rfl)
    exact ⟨c, .inr (.inl ⟨p, mem_comprehension_fors.2 ⟨hp, hkp⟩, clause_followed hg hslots hkp hc⟩), hxc⟩
  · obtain ⟨c, hc, hxc⟩ := hbelow (by rw [hkp]; rfl)
    exact ⟨c, .inl ⟨p, mem_comprehension_ifs.2 ⟨hp, hkp⟩, filter_followed hg hslots hkp hc⟩, hxc⟩

theorem if_followed (hone : t.SingleClauses) (hk : t.kind s = .ifStatement) {p : NodeId}
    (hp : p ∈ t.children s) (hx : t.Below x p) (hopen : (t.kind x).isOpened = false) :
    ∃ c ∈ (t.ifParts s).flatMap t.followedInPart ++ (t.elsePart s).toList, t.Below x c := by
  have hadm := hg.admitted hp
  have hid : s ∈ t.ids := mem_ids_of_child hg.ordered hp
  rw [hk] at hadm
  simp only [SyntaxKind.admits, Bool.or_eq_true, beq_iff_eq] at hadm
  simp only [List.mem_append, List.mem_flatMap, Option.mem_toList]
  rcases hadm with hkp | hkp
  · have hkp' : (t.kind p).isOpened = true := by rcases hkp with hkp | hkp <;> rw [hkp] <;> rfl
    obtain ⟨c, hc, hxc⟩ := hg.ordered.exists_child
      ⟨hx, fun heq : x = p => by rw [heq, hkp'] at hopen; cases hopen⟩
    have hc := hg.ordered.mem_children.2 ⟨index_lt_size_of_parent hc, hc⟩
    exact ⟨c, .inl ⟨p, mem_if_parts.2 ⟨hp, hkp⟩, part_followed hg hslots hkp hc⟩, hxc⟩
  · exact ⟨p, .inr (first_child_of_length hp hkp (hone.else_once s hid (.inl hk))), hx⟩

/-- Whatever stands in the code of a node stands below a node that its rule visits. -/
theorem exists_followed (hone : t.SingleClauses) (hx : t.Holds s x) (hne : x ≠ s)
    (hopen : (t.kind x).isOpened = false) (hlost : ¬ t.Loses s x) :
    ∃ c ∈ t.followed s, t.Below x c := by
  have hin : t.Inside x s := ⟨hx.1, hne⟩
  have howner : (t.kind s).isOwner = false := hx.2 s hin (t.below_refl s)
  obtain ⟨p, hp, hxp⟩ := hg.ordered.exists_child hin
  have hp := hg.ordered.mem_children.2 ⟨index_lt_size_of_parent hp, hp⟩
  have hadm := hg.admitted hp
  unfold followed
  split
  case h_6 hk => exact ⟨p, assignment_followed hg hslots hk hp, hxp⟩
  case h_10 hk => exact if_followed hg hslots hone hk hp hxp hopen
  case h_11 hk => exact ⟨p, while_followed hg hslots hk hp, hxp⟩
  case h_12 hk =>
    exact ⟨p, for_followed hg hslots hk hp fun htarget hbody => hlost ⟨hk, hbody, p, htarget, hxp⟩, hxp⟩
  case h_13 hk => exact ⟨p, try_followed hg hslots hone hk hp, hxp⟩
  case h_14 hk => exact comprehension_followed hg hslots hk hp hxp hopen
  case h_15 => exact ⟨p, hp, hxp⟩
  all_goals
    next hk =>
    rw [hk] at hadm howner
    first
      | cases hadm
      | cases howner

end cover
end SyntaxTree
end PythonFlow
