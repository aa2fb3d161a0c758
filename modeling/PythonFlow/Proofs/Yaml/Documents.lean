import PythonFlow.Proofs.Yaml.Events

/-!
# Documents that are block mappings

A text of words has no characters that may not stand in it, and none that are read as another. Its only
document begins in front of the mapping and ends behind it.
-/

set_option autoImplicit false

namespace PythonFlow.Yaml

/-! ## Characters -/

section characters
variable {c : Char} (hc : isTextChar c = true)
include hc

theorem word_or_mark_of_text_char : isWordChar c = true ∨ c = ' ' ∨ c = ':' ∨ c = '\n' := by
  simpa [isTextChar] using hc

theorem allowed_of_text_char : isAllowed c = true := by
  rcases word_or_mark_of_text_char hc with hword | rfl | rfl | rfl
  · obtain ⟨hlow, hhigh⟩ := range_of_word_char hword
    have hspace : ' ' ≤ c := UInt32.le_iff_toNat_le.2 (Nat.le_trans (by decide) hlow)
    have htilde : c ≤ '~' := UInt32.le_iff_toNat_le.2 (Nat.le_trans hhigh (by decide))
    simp [isAllowed, hspace, htilde]
  all_goals decide

theorem not_return_of_text_char : c ≠ '\r' ∧ c ≠ '\u0085' := by
  rcases word_or_mark_of_text_char hc with hword | rfl | rfl | rfl
  · exact ⟨ne_of_word_char hword rfl, ne_of_word_char hword rfl⟩
  all_goals decide

end characters

section texts
variable {cs : List Char} (hcs : ∀ c ∈ cs, isTextChar c = true)
include hcs

theorem forbidden_offset_none (n : Nat) : forbiddenOffset n cs = none := by
  induction cs generalizing n with
  | nil => rfl
  | cons c rest ih =>
    obtain ⟨hc, hrest⟩ := List.forall_mem_cons.1 hcs
    simp [forbiddenOffset, allowed_of_text_char hc, ih hrest]

theorem unify_breaks_self : unifyBreaks false cs = cs := by
  induction cs with
  | nil => rfl
  | cons c rest ih =>
    obtain ⟨hc, hrest⟩ := List.forall_mem_cons.1 hcs
    obtain ⟨hreturn, hline⟩ := not_return_of_text_char hc
    simp [unifyBreaks, hreturn, hline, ih hrest]

end texts

/-! ## The beginning and the end -/

namespace EventStream
variable {s : EventStream} {ks : List TokenKind}

theorem directives_of_mapping {v : EventStream} {t : Token} (hpeek : v.peek = .ok (t, v))
    (hkind : t.kind = .blockMappingStart) : ∃ handles, v.directives = .ok { v with handles := handles } := by
  have hread : ∀ count, readDirectives (count + 1) false v = .ok v := fun count => by
    simp [readDirectives, hpeek, hkind, bind, Except.bind, pure, Except.pure]
  refine ⟨v.handles ++ standardHandles.filter fun h => !v.handles.any (·.handle == h.handle), ?_⟩
  simp only [directives, hread, bind, Except.bind, pure, Except.pure]

theorem next_document_start (h : s.At .firstDocument [] (.blockMappingStart :: ks)) :
    ∃ m u, s.next = .ok (⟨.documentStart, m⟩, u) ∧
      u.At .blockNode [.documentEnd] (.blockMappingStart :: ks) := by
  obtain ⟨t, v, hv⟩ := shows_of_delivers h.delivers
  obtain ⟨handles, hdirectives⟩ := directives_of_mapping hv.again hv.kind
  refine ⟨t.start, (({ v with handles := handles } : EventStream).awaiting .documentEnd).goTo .blockNode, ?_,
    rfl, congrArg _ (hv.later.trans h.later), hv.here⟩
  rw [next, h.position]
  simp [document, hv.peek, hv.kind, isDirective, hdirectives, bind, Except.bind, pure, Except.pure]

theorem next_document_end (h : s.At .documentEnd [] [.textEnd]) :
    ∃ m u, s.next = .ok (⟨.documentEnd, m⟩, u) ∧ u.At .nextDocument [] [.textEnd] := by
  obtain ⟨t, v, hv⟩ := shows_of_delivers h.delivers
  refine ⟨t.start, { v.goTo .nextDocument with handles := [] }, ?_, rfl, hv.later.trans h.later, hv.here⟩
  rw [next, h.position]
  simp [endDocument, hv.peek, hv.kind, bind, Except.bind, pure, Except.pure]

theorem nothing_comes_after (h : s.At .nextDocument [] [.textEnd]) : Document.comesAfter s = false := by
  obtain ⟨t, v, hv⟩ := shows_of_delivers h.delivers
  have hskip : ∀ count, skipDocumentEnds (count + 1) s = .ok v := fun count => by
    simp [skipDocumentEnds, hv.peek, hv.kind, bind, Except.bind, pure, Except.pure]
  have hnext : s.next = .ok (⟨.textEnd, t.start⟩, v.drop.goTo .nothing) := by
    rw [next, h.position]
    simp [document, hskip, hv.again, hv.kind, bind, Except.bind, pure, Except.pure]
  rw [Document.comesAfter, hnext]
  rfl

end EventStream

/-! ## Documents -/

namespace Document

theorem collect_of_emits {s : EventStream} {ps : List Part} {P : EventStream → Prop} (h : s.Emits ps P)
    (d : Draft) (n : Nat) :
    ∃ (u : EventStream) (placed : List Placed), P u ∧ placed.map Placed.part = ps ∧
      collect (n + ps.length) d s = collect n ⟨placed.reverse ++ d.parts, d.anchors⟩ u := by
  induction ps generalizing s d with
  | nil => exact ⟨s, [], h, rfl, rfl⟩
  | cons p ps ih =>
    obtain ⟨⟨kind, m⟩, u, hnext, hsays, hrest⟩ := h
    have hadd : d.addEvent ⟨kind, m⟩ = .ok (d.add p m none) := by cases hsays <;> rfl
    obtain ⟨v, placed, hv, hparts, hcollect⟩ := ih hrest (d.add p m none)
    refine ⟨v, ⟨p, m⟩ :: placed, hv, by rw [List.map_cons, hparts], ?_⟩
    have hstep : collect (n + (p :: ps).length) d s = collect (n + ps.length) (d.add p m none) u := by
      rw [List.length_cons, ← Nat.add_assoc, collect, hnext]
      cases hsays <;> simp_all
    rw [hstep, hcollect]
    simp [Draft.add, Anchors.defineIf]

theorem collect_document_start {s u : EventStream} {m : Mark} (h : s.next = .ok (⟨.documentStart, m⟩, u))
    (d : Draft) (n : Nat) : collect (n + 1) d s = collect n d u := by
  rw [collect, h]
  rfl

theorem collect_document_end {s u : EventStream} {m : Mark} (h : s.next = .ok (⟨.documentEnd, m⟩, u))
    (d : Draft) (n : Nat) : collect (n + 1) d s = finish d none (comesAfter u) := by
  rw [collect, h]

/-- The parts of a text that is a block mapping, between the beginning and the end of its document. -/
theorem emits_mapping {entries : Entries} {s : EventStream}
    (h : s.At .blockNode [.documentEnd] (.blockMappingStart :: (entries.tokens ++ [.blockEnd, .textEnd]))) :
    s.Emits (.mappingStart :: (entries.parts ++ [.mappingEnd])) fun u => u.At .documentEnd [] [.textEnd] := by
  obtain ⟨m, u, hnode, hu⟩ := EventStream.node_mapping h.delivers false
  rw [h.later] at hu
  have hnext : s.next = .ok (⟨.mappingStart .none, m⟩, u) := by rw [EventStream.next, h.position, hnode]
  refine ⟨_, u, hnext, .mappingStart, EventStream.emits_append ?_⟩
  exact (entries.emits hu.at_first_key).mono fun v hv => EventStream.next_end hv

/-- A text that is a block mapping has one document, and that has the parts of the mapping. -/
theorem of_text_mapping (entries : Entries) :
    ∃ placed : List Placed, placed.map Placed.part = .mappingStart :: (entries.parts ++ [.mappingEnd]) ∧
      ofText (String.ofList (entries.text 0)) = ⟨placed, [], none, false, .core⟩ := by
  have htext := entries.text_chars 0
  have hbegin : (EventStream.ofText (entries.text 0)).At .firstDocument []
      (.blockMappingStart :: (entries.tokens ++ [.blockEnd, .textEnd])) := ⟨rfl, rfl, entries.stream_delivers⟩
  obtain ⟨m, s, hstart, hs⟩ := EventStream.next_document_start hbegin
  -- Every event takes a character at least, but for those of the document and of the mapping itself.
  obtain ⟨n, hn⟩ : ∃ n, 16 * ((entries.text 0).length + 4) =
      n + 1 + (.mappingStart :: (entries.parts ++ [.mappingEnd])).length + 1 := by
    have hlength := entries.length_parts_le 0
    refine ⟨16 * ((entries.text 0).length + 4) - (entries.parts.length + 4), ?_⟩
    simp only [List.length_cons, List.length_append, List.length_nil]
    omega
  obtain ⟨u, placed, hu, hparts, hcollect⟩ := collect_of_emits (emits_mapping hs) .empty (n + 1)
  obtain ⟨m', v, hend, hv⟩ := EventStream.next_document_end hu
  refine ⟨placed, hparts, ?_⟩
  simp only [ofText, String.toList_ofList, forbidden_offset_none htext, unify_breaks_self htext]
  rw [hn, collect_document_start hstart, hcollect, collect_document_end hend,
    EventStream.nothing_comes_after hv]
  simp [finish, Draft.empty, Anchors.empty]

end Document
end PythonFlow.Yaml
