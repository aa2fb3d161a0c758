import PythonFlow.Proofs.Yaml.Tokens

/-!
# Parts of block mappings

A key and a value give an event each, and a mapping two more, in front of its entries and behind them. The
document of a text that is a block mapping consists of the parts of the mapping, and of nothing else.
-/

set_option autoImplicit false

namespace PythonFlow.Yaml

namespace EventStream

inductive Says : EventKind → Part → Prop where
  | scalar (style : ScalarStyle) (text : List Char) : Says (.scalar .none style text) (.scalar none style text)
  | mappingStart : Says (.mappingStart .none) .mappingStart
  | mappingEnd : Says .mappingEnd .mappingEnd

/-- Events that say these parts come next, and `P` holds of the stream behind them. -/
def Emits : EventStream → List Part → (EventStream → Prop) → Prop
  | s, [], P => P s
  | s, p :: ps, P => ∃ e u, s.next = .ok (e, u) ∧ Says e.kind p ∧ u.Emits ps P

theorem emits_append {s : EventStream} {ps qs : List Part} {P : EventStream → Prop}
    (h : s.Emits ps fun u => u.Emits qs P) : s.Emits (ps ++ qs) P := by
  induction ps generalizing s with
  | nil => exact h
  | cons p ps ih =>
    obtain ⟨e, u, hnext, hsays, hrest⟩ := h
    exact ⟨e, u, hnext, hsays, ih hrest⟩

theorem Emits.mono {s : EventStream} {ps : List Part} {P Q : EventStream → Prop} (h : s.Emits ps P)
    (hPQ : ∀ u, P u → Q u) : s.Emits ps Q := by
  induction ps generalizing s with
  | nil => exact hPQ s h
  | cons p ps ih =>
    obtain ⟨e, u, hnext, hsays, hrest⟩ := h
    exact ⟨e, u, hnext, hsays, ih hrest⟩

/-- Where a stream stands: at a position, inside of nodes, and in front of tokens. -/
structure At (s : EventStream) (p : Position) (later : List Position) (ks : List TokenKind) : Prop where
  position : s.position = p
  later : s.later = later
  delivers : s.tokens.Delivers ks

def AtKey (s : EventStream) (later : List Position) (ks : List TokenKind) : Prop :=
  ∃ u : EventStream, s.next = u.blockKey ∧ u.later = later ∧ u.tokens.Delivers ks

/-! ## Nodes -/

section nodes
variable {s : EventStream} {k : TokenKind} {ks : List TokenKind}

/-- `t` comes first, and `v` is the stream that has looked at it. -/
structure Shows (s v : EventStream) (t : Token) (k : TokenKind) (ks : List TokenKind) : Prop where
  peek : s.peek = .ok (t, v)
  again : v.peek = .ok (t, v)
  kind : t.kind = k
  later : v.later = s.later
  here : v.tokens.Delivers (k :: ks)
  behind : v.drop.tokens.Delivers ks

theorem shows_of_delivers (h : s.tokens.Delivers (k :: ks)) : ∃ t v, s.Shows v t k ks := by
  obtain ⟨t, f, hpeek, hagain, hkind, hrest⟩ := h
  refine ⟨t, { s with tokens := f }, ?_, ?_, hkind, rfl, ⟨t, f, hagain, hagain, hkind, hrest⟩, hrest⟩
  · simp [peek, hpeek, bind, Except.bind, pure, Except.pure]
  · simp [peek, hagain, bind, Except.bind, pure, Except.pure]

theorem node_scalar {p : Position} {later : List Position} {text : List Char}
    (h : s.tokens.Delivers (.scalar .plain text :: ks)) (hlater : s.later = p :: later)
    (inBlock indentless : Bool) :
    ∃ m u, s.node inBlock indentless = .ok (⟨.scalar .none .plain text, m⟩, u) ∧ u.At p later ks := by
  obtain ⟨t, v, hv⟩ := shows_of_delivers h
  have hleave : v.drop.leave.At p later ks := by
    rw [leave, show v.drop.later = p :: later from hv.later.trans hlater]
    exact ⟨rfl, rfl, hv.behind⟩
  refine ⟨t.start, v.drop.leave, ?_, hleave⟩
  simp [node, hv.peek, hv.again, hv.kind, readProperties, resolveTag, Properties.none, bind, Except.bind, pure,
    Except.pure]

theorem node_mapping (h : s.tokens.Delivers (.blockMappingStart :: ks)) (indentless : Bool) :
    ∃ m u, s.node true indentless = .ok (⟨.mappingStart .none, m⟩, u) ∧
      u.At .firstBlockKey s.later (.blockMappingStart :: ks) := by
  obtain ⟨t, v, hv⟩ := shows_of_delivers h
  refine ⟨t.start, v.goTo .firstBlockKey, ?_, rfl, hv.later, hv.here⟩
  simp [node, hv.peek, hv.again, hv.kind, readProperties, resolveTag, Properties.none, bind, Except.bind, pure,
    Except.pure]

theorem node_unless_of_not_ends (ends : TokenKind → Bool) (h : s.tokens.Delivers (k :: ks))
    (hk : ends k = false) (inBlock indentless : Bool) (next : Position) (missing : Token → Mark) :
    ∃ u : EventStream, s.nodeUnless ends inBlock indentless next missing = u.node inBlock indentless ∧
      u.later = next :: s.later ∧ u.tokens.Delivers (k :: ks) := by
  obtain ⟨t, v, hv⟩ := shows_of_delivers h
  refine ⟨v.awaiting next, ?_, congrArg (next :: ·) hv.later, hv.here⟩
  simp [nodeUnless, hv.peek, hv.kind, hk, bind, Except.bind]

end nodes

/-! ## Keys and values -/

section entries
variable {s : EventStream} {later : List Position} {ks : List TokenKind}

theorem At.at_key (h : s.At .blockKey later ks) : s.AtKey later ks :=
  ⟨s, by rw [next, h.position], h.later, h.delivers⟩

theorem At.at_first_key (h : s.At .firstBlockKey later (.blockMappingStart :: ks)) : s.AtKey later ks := by
  obtain ⟨t, v, hv⟩ := shows_of_delivers h.delivers
  refine ⟨(v.begin' t.start).drop, ?_, hv.later.trans h.later, hv.behind⟩
  simp [next, h.position, openCollection, hv.peek, bind, Except.bind, pure, Except.pure]

theorem next_key {text : List Char} (h : s.AtKey later (.key :: .scalar .plain text :: ks)) :
    ∃ e u, s.next = .ok (e, u) ∧ Says e.kind (.scalar none .plain text) ∧ u.At .blockValue later ks := by
  obtain ⟨w, hnext, hlater, hdelivers⟩ := h
  obtain ⟨t, v, hv⟩ := shows_of_delivers hdelivers
  obtain ⟨x, hnode, hx, hscalar⟩ :=
    node_unless_of_not_ends endsBlockPart hv.behind rfl true true .blockValue fun _ => t.last
  have hlater' : x.later = .blockValue :: later := hx.trans (congrArg _ (hv.later.trans hlater))
  obtain ⟨m, u, hread, hu⟩ := node_scalar hscalar hlater' true true
  refine ⟨⟨.scalar .none .plain text, m⟩, u, ?_, .scalar _ _, hu⟩
  calc s.next = w.blockKey := hnext
    _ = v.drop.nodeUnless endsBlockPart true true .blockValue fun _ => t.last := by
      simp [blockKey, hv.peek, hv.kind, bind, Except.bind]
    _ = .ok _ := hnode.trans hread

/-- Behind a key comes the node of its value. -/
theorem next_value {k : TokenKind} (h : s.At .blockValue later (.value :: k :: ks))
    (hk : endsBlockPart k = false) :
    ∃ u : EventStream, s.next = u.node true true ∧ u.later = .blockKey :: later ∧
      u.tokens.Delivers (k :: ks) := by
  obtain ⟨t, v, hv⟩ := shows_of_delivers h.delivers
  obtain ⟨u, hnode, hu, hdelivers⟩ :=
    node_unless_of_not_ends endsBlockPart hv.behind hk true true .blockKey fun _ => t.last
  refine ⟨u, ?_, hu.trans (congrArg _ (hv.later.trans h.later)), hdelivers⟩
  rw [← hnode, next, h.position]
  simp [blockValue, hv.peek, hv.kind, bind, Except.bind]

theorem next_word {text : List Char} (h : s.At .blockValue later (.value :: .scalar .plain text :: ks)) :
    ∃ e u, s.next = .ok (e, u) ∧ Says e.kind (.scalar none .plain text) ∧ u.AtKey later ks := by
  obtain ⟨v, hnext, hlater, hdelivers⟩ := next_value h rfl
  obtain ⟨m, u, hread, hu⟩ := node_scalar hdelivers hlater true true
  exact ⟨⟨.scalar .none .plain text, m⟩, u, hnext.trans hread, .scalar _ _, hu.at_key⟩

theorem next_mapping (h : s.At .blockValue later (.value :: .blockMappingStart :: ks)) :
    ∃ e u, s.next = .ok (e, u) ∧ Says e.kind .mappingStart ∧ u.AtKey (.blockKey :: later) ks := by
  obtain ⟨v, hnext, hlater, hdelivers⟩ := next_value h rfl
  obtain ⟨m, u, hread, hu⟩ := node_mapping hdelivers true
  rw [hlater] at hu
  exact ⟨⟨.mappingStart .none, m⟩, u, hnext.trans hread, .mappingStart, hu.at_first_key⟩

/-- A mapping ends, and what it stands in goes on. -/
theorem next_end {p : Position} (h : s.AtKey (p :: later) (.blockEnd :: ks)) :
    ∃ e u, s.next = .ok (e, u) ∧ Says e.kind .mappingEnd ∧ u.At p later ks := by
  obtain ⟨w, hnext, hlater, hdelivers⟩ := h
  obtain ⟨t, v, hv⟩ := shows_of_delivers hdelivers
  have hleave : v.leave = { v with position := p, later := later } := by
    rw [leave, hv.later.trans hlater]
  refine ⟨⟨.mappingEnd, t.start⟩, v.leaveCollection.drop, ?_, .mappingEnd, ?_⟩
  · rw [hnext]
    simp [blockKey, hv.peek, hv.kind, closeCollection, bind, Except.bind, pure, Except.pure]
  · rw [leaveCollection, hleave]
    exact ⟨rfl, rfl, hv.behind⟩

end entries
end EventStream

/-! ## Mappings -/

section mappings
open EventStream

mutual

theorem Block.emits (b : Block) {s : EventStream} {later : List Position} {ks : List TokenKind}
    (h : s.At .blockValue later (.value :: (b.tokens ++ ks))) : s.Emits b.parts fun u => u.AtKey later ks := by
  cases b with
  | word w => exact next_word h
  | mapping entries =>
    simp only [Block.tokens, Block.parts, List.cons_append, List.append_assoc, List.nil_append] at h ⊢
    obtain ⟨e, u, hnext, hsays, hu⟩ := next_mapping h
    refine ⟨e, u, hnext, hsays, emits_append ?_⟩
    refine (entries.emits hu).mono fun v hv => ?_
    obtain ⟨e, u, hnext, hsays, hu⟩ := next_end hv
    exact ⟨e, u, hnext, hsays, hu.at_key⟩

theorem Entries.emits (entries : Entries) {s : EventStream} {later : List Position} {ks : List TokenKind}
    (h : s.AtKey later (entries.tokens ++ ks)) : s.Emits entries.parts fun u => u.AtKey later ks := by
  cases entries with
  | one key value =>
    obtain ⟨e, u, hnext, hsays, hu⟩ := next_key h
    exact ⟨e, u, hnext, hsays, value.emits hu⟩
  | more key value rest =>
    simp only [Entries.tokens, Entries.bodyTokens, List.cons_append, List.append_assoc] at h
    obtain ⟨e, u, hnext, hsays, hu⟩ := next_key h
    refine ⟨e, u, hnext, hsays, emits_append ?_⟩
    exact (value.emits hu).mono fun v hv => rest.emits hv

end

end mappings
end PythonFlow.Yaml
