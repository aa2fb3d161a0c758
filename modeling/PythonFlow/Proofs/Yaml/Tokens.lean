import Mathlib.Data.List.TakeWhile
import PythonFlow.Proofs.Yaml.Block

/-!
# Tokens of block mappings

Tokens are read ahead only as far as is needed to know which comes first, so that what a stream delivers is
stated for one token after the other. A key is known by its colon; the ends of the mappings that lie further
in come in front of it.
-/

set_option autoImplicit false

namespace PythonFlow.Yaml

namespace TokenStream

/-! ## Delivery -/

/-- Tokens of these kinds come next. A token that is looked at twice is the same. -/
def Delivers : TokenStream → List TokenKind → Prop
  | _, [] => True
  | s, k :: ks => ∃ t f, s.peek = .ok (t, f) ∧ f.peek = .ok (t, f) ∧ t.kind = k ∧ f.drop.Delivers ks

structure Settled (s : TokenStream) : Prop where
  queue : s.queue ≠ []
  fresh : s.dropStaleKeys = .ok s
  decided : s.undecided = false

variable {s f : TokenStream}

theorem Settled.fill_up_to (h : s.Settled) (n : Nat) : fillUpTo n s = .ok s := by
  cases n with
  | zero => rfl
  | succ n => simp [fillUpTo, h.queue, h.fresh, h.decided, bind, Except.bind, pure, Except.pure]

theorem Settled.fill_eq (h : s.Settled) : s.fill = .ok s := h.fill_up_to _

/-- What comes first depends only on what is read ahead. -/
theorem delivers_congr (hfill : s.fill = f.fill) {ks : List TokenKind} (h : f.Delivers ks) :
    s.Delivers ks := by
  cases ks with
  | nil => trivial
  | cons k ks =>
    obtain ⟨t, u, hpeek, hagain, hrest⟩ := h
    refine ⟨t, u, ?_, hagain, hrest⟩
    rw [← hpeek, peek, peek, hfill]

theorem delivers_of_fill (hfill : s.fill = .ok f) (hf : f.Settled) {ks : List TokenKind}
    (h : f.Delivers ks) : s.Delivers ks :=
  delivers_congr (hfill.trans hf.fill_eq.symm) h

theorem Settled.delivers_cons (h : s.Settled) {t : Token} {ts : List Token} {ks : List TokenKind}
    (hqueue : s.queue = t :: ts) (hrest : s.drop.Delivers ks) : s.Delivers (t.kind :: ks) := by
  have hpeek : s.peek = .ok (t, s) := by simp [peek, h.fill_eq, hqueue, bind, Except.bind, pure, Except.pure]
  exact ⟨t, s, hpeek, hpeek, rfl, hrest⟩

theorem settled_of_no_key (hqueue : s.queue ≠ []) (hkey : s.key = none) (houter : s.outerKeys = []) :
    s.Settled where
  queue := hqueue
  fresh := by
    obtain ⟨c, queue, taken, indents, key, outer, allowed⟩ := s
    subst hkey houter
    rfl
  decided := by simp [undecided, hkey, houter]

/-- Where no key may begin, all tokens of the queue come as they are. -/
theorem delivers_queue (c : Cursor) (queue : List Token) (taken : Nat) (indents : List Nat) (allowed : Bool)
    {ks : List TokenKind}
    (h : Delivers ⟨c, [], taken + queue.length, indents, none, [], allowed⟩ ks) :
    Delivers ⟨c, queue, taken, indents, none, [], allowed⟩ (queue.map Token.kind ++ ks) := by
  induction queue generalizing taken with
  | nil => exact h
  | cons t ts ih =>
    have hsettled : Settled ⟨c, t :: ts, taken, indents, none, [], allowed⟩ :=
      settled_of_no_key (List.cons_ne_nil t ts) rfl rfl
    refine hsettled.delivers_cons rfl (ih (taken + 1) ?_)
    rwa [List.length_cons, Nat.add_comm ts.length, ← Nat.add_assoc] at h

theorem fill_up_to_advance (hqueue : s.queue = []) (hadvance : s.advance = .ok f) (n : Nat) :
    fillUpTo (n + 1) s = fillUpTo n f := by
  rw [fillUpTo]
  simp [hqueue, hadvance, bind, Except.bind]

theorem fill_up_to_undecided (hqueue : s.queue ≠ []) (hfresh : s.dropStaleKeys = .ok s)
    (hundecided : s.undecided = true) (hadvance : s.advance = .ok f) (n : Nat) :
    fillUpTo (n + 1) s = fillUpTo n f := by
  rw [fillUpTo]
  simp [hqueue, hfresh, hundecided, hadvance, bind, Except.bind]

theorem delivers_of_advance {c : Cursor} {queue : List Token} {taken : Nat} {indents : List Nat}
    {allowed : Bool} {ks : List TokenKind} (hqueue : s.queue = []) (hread : queue ≠ [])
    (hadvance : s.advance = .ok ⟨c, queue, taken, indents, none, [], allowed⟩)
    (hnext : ∀ taken, Delivers ⟨c, [], taken, indents, none, [], allowed⟩ ks) :
    s.Delivers (queue.map Token.kind ++ ks) := by
  have hsettled : Settled ⟨c, queue, taken, indents, none, [], allowed⟩ := settled_of_no_key hread rfl rfl
  refine delivers_of_fill ?_ hsettled (delivers_queue _ _ _ _ _ (hnext _))
  exact (fill_up_to_advance hqueue hadvance _).trans (hsettled.fill_up_to _)

/-! ## Reading a token -/

/-- Outside of brackets, with nothing read ahead. -/
def ready (c : Cursor) (taken : Nat) (indents : List Nat) (allowed : Bool) : TokenStream :=
  ⟨c, [], taken, indents, none, [], allowed⟩

def closing (c : Cursor) (closed taken : Nat) (indents : List Nat) (allowed : Bool) : TokenStream :=
  ⟨c, List.replicate closed (.at .blockEnd c.mark), taken, indents, none, [], allowed⟩

theorem skip_to_token_of_word {c : Char} (hc : isWordChar c = true ∨ c = ':') {allowed : Bool}
    {rest : List Char} {m : Mark} :
    skipToToken false allowed false (c :: rest) m = (allowed, ⟨c :: rest, m⟩) := by
  rcases hc with hc | rfl
  · have hhash := ne_of_word_char hc (x := '#') rfl
    have hspace := ne_of_word_char hc (x := ' ') rfl
    have htab := ne_of_word_char hc (x := '\t') rfl
    have hmark := ne_of_word_char hc (x := '\ufeff') rfl
    simp [skipToToken, not_break_of_word_char hc, hhash, hspace, htab, hmark]
  · rfl

theorem skip_to_token_word (w : Word) {allowed : Bool} (tail : List Char) (m : Mark) :
    skipToToken false allowed false (w.chars ++ tail) m = (allowed, ⟨w.chars ++ tail, m⟩) := by
  obtain ⟨c, more, hchars, hc⟩ := w.exists_cons
  rw [hchars, List.cons_append]
  exact skip_to_token_of_word (.inl hc)

theorem skip_to_token_blanks (n : Nat) {allowed : Bool} {rest : List Char} {m : Mark} :
    skipToToken false allowed false (blanks n ++ rest) m =
      skipToToken false allowed false rest (m.afterAll (blanks n)) := by
  induction n generalizing m with
  | zero => rfl
  | succ n ih => exact ih

theorem skip_to_token_line (n : Nat) {allowed : Bool} {rest : List Char} {m : Mark} :
    skipToToken false allowed false ('\n' :: (blanks n ++ rest)) m =
      skipToToken false true false rest (m.afterAll ('\n' :: blanks n)) := by
  have hbreak : skipToToken false allowed false ('\n' :: (blanks n ++ rest)) m =
      skipToToken false true false (blanks n ++ rest) (m.after '\n') := by
    simp [skipToToken, isBreak]
  exact hbreak.trans (skip_to_token_blanks n)

theorem close_blocks_ready {c : Cursor} {allowed : Bool} {taken : Nat} {closed inner : List Nat}
    {closes : Nat → Bool} (hclosed : ∀ i ∈ closed, closes i = true) (hinner : ∀ i ∈ inner, closes i = false) :
    (ready c taken (closed ++ inner) allowed).closeBlocks closes =
      closing c closed.length taken inner allowed := by
  obtain ⟨htake, hdrop⟩ := take_drop_while_append hclosed fun i hi => hinner i (List.mem_of_mem_head? hi)
  simp [ready, closing, closeBlocks, inFlow, mark, htake, hdrop, List.map_const']

theorem close_blocks_none {closes : Nat → Bool} (h : ∀ i ∈ s.indents, closes i = false) :
    s.closeBlocks closes = s := by
  obtain ⟨c, queue, taken, indents, key, outer, allowed⟩ := s
  obtain ⟨htake, hdrop⟩ := @take_drop_while_append _ closes [] indents (by simp) fun i hi =>
    h i (List.mem_of_mem_head? hi)
  rw [List.nil_append] at htake hdrop
  simp [closeBlocks, htake, hdrop]

theorem advance_ready {c c' : Cursor} {allowed allowed' : Bool} {taken : Nat} {closed inner : List Nat}
    (hskip : skipToToken false allowed false c.rest c.mark = (allowed', c'))
    (hclosed : ∀ i ∈ closed, c'.mark.column < i) (hinner : ∀ i ∈ inner, i ≤ c'.mark.column) :
    (ready c taken (closed ++ inner) allowed).advance =
      (closing c' closed.length taken inner allowed').readToken := by
  have hadvance : (ready c taken (closed ++ inner) allowed).advance =
      ((ready c' taken (closed ++ inner) allowed').closeBlocks (c'.mark.column < ·)).readToken := by
    simp only [advance, ready, inFlow, mark, List.isEmpty_nil, Bool.not_true, hskip]
    rfl
  rw [hadvance]
  refine congrArg readToken (close_blocks_ready (fun i hi => ?_) fun i hi => ?_)
  · exact decide_eq_true (hclosed i hi)
  · exact decide_eq_false (Nat.not_lt.2 (hinner i hi))

theorem read_token_of_word {w : Word} {tail : List Char} (hrest : s.cursor.rest = w.chars ++ tail) :
    s.readToken = s.readPlain := by
  obtain ⟨c, more, hchars, hc⟩ := w.exists_cons
  have hindicator : isIndicator c = false := not_contains_word_char hc (by decide)
  have hstarts : ∀ next, s.startsPlain c next = true := fun next => by
    rw [startsPlain, hindicator, not_gap_of_word_char hc]
    rfl
  have hmark : ∀ x, isWordChar x = false → s.cursor.atIndicator x = false := fun x hx => by
    simp [Cursor.atIndicator, Cursor.isAt, Cursor.next, hrest, hchars, ne_of_word_char hc hx]
  rw [hchars, List.cons_append] at hrest
  simp [isIndicator] at hindicator
  simp [readToken, hrest, hmark '-' rfl, hmark '.' rfl, hstarts, hindicator]

theorem read_token_of_colon {tail : List Char} (hrest : s.cursor.rest = ':' :: tail)
    (htail : endsWord tail.head? = true) : s.readToken = s.readValue := by
  simp [readToken, hrest, htail, Cursor.atIndicator, Cursor.isAt, Cursor.next]

/-! ## Keys -/

section key
variable (k : Word) (rest : List Char) (m : Mark)

/-- A key that is read up to its colon, behind the ends of `closed` collections. -/
def atColon (closed taken : Nat) (indents : List Nat) (required : Bool) : TokenStream :=
  ⟨⟨':' :: rest, m.afterAll k.chars⟩,
    List.replicate closed (.at .blockEnd m) ++ [⟨.scalar .plain k.chars, m, m.afterAll k.chars⟩],
    taken, indents, some ⟨required, taken + closed, m⟩, [], false⟩

variable {rest}

theorem read_plain_key (hrest : endsWord rest.head? = true) (closed taken : Nat) (indents : List Nat) :
    (closing ⟨k.chars ++ ':' :: rest, m⟩ closed taken indents true).readPlain =
      .ok (atColon k rest m closed taken indents (indents.head? == some m.column)) := by
  simp [readPlain, closing, atColon, saveKey, dropKey, inFlow, mark, k.plain_scalar_key hrest, pushTo, push,
    bind, Except.bind, pure, Except.pure]

theorem at_colon_fresh (closed taken : Nat) (indents : List Nat) (required : Bool) :
    (atColon k rest m closed taken indents required).dropStaleKeys =
      .ok (atColon k rest m closed taken indents required) := by
  have hstale : KeyStart.stale ⟨required, taken + closed, m⟩ (m.afterAll k.chars) = false := by
    have hshort := k.short
    simp [KeyStart.stale, k.after_eq]
    omega
  simp [dropStaleKeys, atColon, freshKey, mark, hstale, bind, Except.bind, pure, Except.pure]

def opens (column : Nat) (indents : List Nat) : Bool := indents.head?.all (· < column)

def indentsBehind (column : Nat) (indents : List Nat) : List Nat :=
  if opens column indents then column :: indents else indents

def keyTokens (column : Nat) (indents : List Nat) (key : List Char) : List TokenKind :=
  (if opens column indents then [.blockMappingStart] else []) ++ [.key, .scalar .plain key, .value]

variable (rest) in
def behindColon (taken : Nat) (indents : List Nat) : TokenStream :=
  let colon := m.afterAll k.chars
  ⟨⟨rest, colon.after ':'⟩,
    (if opens m.column indents then [.at .blockMappingStart m] else []) ++
      [.at .key m, ⟨.scalar .plain k.chars, m, colon⟩, ⟨.value, colon, colon.after ':'⟩],
    taken, indentsBehind m.column indents, none, [], false⟩

theorem kinds_behind_colon (taken : Nat) (indents : List Nat) :
    (behindColon k rest m taken indents).queue.map Token.kind = keyTokens m.column indents k.chars := by
  cases hopens : opens m.column indents <;> simp [behindColon, keyTokens, hopens, Token.at]

theorem read_value_at_colon (taken : Nat) (indents : List Nat) (required : Bool) :
    (atColon k rest m 0 taken indents required).readValue = .ok (behindColon k rest m taken indents) := by
  cases hopens : indents.head?.all (· < m.column) <;>
    simp [readValue, atColon, behindColon, insert, openBlock, inFlow, indentsTo, indentsBehind, opens, hopens,
      pushChars, push, mark, Cursor.skip, Mark.afterAll]

theorem advance_at_colon (hrest : endsWord rest.head? = true) (taken : Nat) {indents : List Nat}
    (hindents : ∀ i ∈ indents, i ≤ m.column) (required : Bool) :
    (atColon k rest m 0 taken indents required).advance = .ok (behindColon k rest m taken indents) := by
  have hclose : (atColon k rest m 0 taken indents required).closeBlocks
      ((m.afterAll k.chars).column < ·) = atColon k rest m 0 taken indents required := by
    refine close_blocks_none fun i hi => decide_eq_false (Nat.not_lt.2 ?_)
    rw [k.after_eq]
    exact Nat.le_add_right_of_le (hindents i hi)
  have hadvance : (atColon k rest m 0 taken indents required).advance =
      (atColon k rest m 0 taken indents required).readValue := by
    change (atColon k rest m 0 taken indents required).dropStaleKeys.bind
      (fun s => (s.closeBlocks (s.mark.column < ·)).readToken) = _
    rw [at_colon_fresh]
    refine Eq.trans (congrArg readToken hclose) ?_
    exact read_token_of_colon rfl hrest
  rw [hadvance, read_value_at_colon]

theorem at_colon_settled (closed taken : Nat) (indents : List Nat) (required : Bool) :
    (atColon k rest m (closed + 1) taken indents required).Settled where
  queue := by simp [atColon]
  fresh := at_colon_fresh k m _ _ _ _
  decided := by simp [undecided, atColon]

variable {indents : List Nat} {ks : List TokenKind}

/-- The ends in front of a key come one by one, and the colon is read when there are none left. -/
theorem fill_at_colon (hrest : endsWord rest.head? = true) (hindents : ∀ i ∈ indents, i ≤ m.column)
    (required : Bool)
    (hnext : ∀ taken, (ready ⟨rest, (m.afterAll k.chars).after ':'⟩ taken (indentsBehind m.column indents)
      false).Delivers ks) (closed taken : Nat) :
    ∃ f : TokenStream, f.Settled ∧
      (∀ n, fillUpTo (n + 1) (atColon k rest m closed taken indents required) = .ok f) ∧
      f.Delivers (List.replicate closed .blockEnd ++ (keyTokens m.column indents k.chars ++ ks)) := by
  -- While there are ends in the queue the key is not the first token, and nothing more is read.
  induction closed generalizing taken with
  | zero =>
    have hsettled : (behindColon k rest m taken indents).Settled :=
      settled_of_no_key (by simp [behindColon]) rfl rfl
    refine ⟨behindColon k rest m taken indents, hsettled, fun n => ?_, ?_⟩
    · rw [fill_up_to_undecided (by simp [atColon]) (at_colon_fresh k m _ _ _ _) (by simp [undecided, atColon])
        (advance_at_colon k m hrest taken hindents required), hsettled.fill_up_to]
    · rw [← @kinds_behind_colon k rest m taken]
      exact delivers_queue _ _ _ _ _ (hnext _)
  | succ closed ih =>
    have hsettled := @at_colon_settled k rest m closed taken indents required
    obtain ⟨f, hf, hfill, hdelivers⟩ := ih (taken + 1)
    refine ⟨_, hsettled, fun n => hsettled.fill_up_to _, hsettled.delivers_cons rfl ?_⟩
    have hdrop : (atColon k rest m (closed + 1) taken indents required).drop =
        atColon k rest m closed (taken + 1) indents required := by
      simp [drop, atColon, List.replicate_succ]
      omega
    rw [hdrop]
    exact delivers_of_fill (hfill _) hf hdelivers

/-- A key, behind the ends of the mappings that are left with it. -/
theorem delivers_key {c : Cursor} {allowed : Bool} {closed : List Nat} (taken : Nat)
    (hskip : skipToToken false allowed false c.rest c.mark = (true, ⟨k.chars ++ ':' :: rest, m⟩))
    (hrest : endsWord rest.head? = true) (hclosed : ∀ i ∈ closed, m.column < i)
    (hindents : ∀ i ∈ indents, i ≤ m.column)
    (hnext : ∀ m' taken, m.column ≤ m'.column →
      (ready ⟨rest, m'⟩ taken (indentsBehind m.column indents) false).Delivers ks) :
    (ready c taken (closed ++ indents) allowed).Delivers
      (List.replicate closed.length .blockEnd ++ (keyTokens m.column indents k.chars ++ ks)) := by
  have hadvance : (ready c taken (closed ++ indents) allowed).advance =
      .ok (atColon k rest m closed.length taken indents (indents.head? == some m.column)) := by
    rw [advance_ready hskip hclosed hindents, read_token_of_word rfl, read_plain_key k m hrest]
  have hcolumn : m.column ≤ ((m.afterAll k.chars).after ':').column := by
    simp only [k.after_eq, Mark.after, isBreak]
    exact Nat.le_trans (Nat.le_add_right _ _) (Nat.le_succ _)
  obtain ⟨f, hf, hfill, hdelivers⟩ :=
    fill_at_colon k m hrest hindents _ (fun taken => hnext _ taken hcolumn) closed.length taken
  refine delivers_of_fill ?_ hf hdelivers
  rw [fill, fill_up_to_advance rfl hadvance, hfill]

/-- The first key of a mapping. -/
theorem delivers_first_key {c : Cursor} {allowed : Bool} (taken : Nat)
    (hskip : skipToToken false allowed false c.rest c.mark = (true, ⟨k.chars ++ ':' :: rest, m⟩))
    (hrest : endsWord rest.head? = true) (hindents : ∀ i ∈ indents, i < m.column)
    (hnext : ∀ m' taken, m.column ≤ m'.column →
      (ready ⟨rest, m'⟩ taken (m.column :: indents) false).Delivers ks) :
    (ready c taken indents allowed).Delivers
      (.blockMappingStart :: .key :: .scalar .plain k.chars :: .value :: ks) := by
  have hopens : opens m.column indents = true := by cases indents <;> simp_all [opens]
  have hkey := @delivers_key k rest m indents ks c allowed [] taken hskip hrest (by simp)
    (fun i hi => (hindents i hi).le)
  rw [indentsBehind, keyTokens, hopens] at hkey
  exact hkey hnext

/-- A further key of a mapping, behind the ends of the mappings that lie further in. -/
theorem delivers_further_key {closed : List Nat} (taken : Nat) (hrest : endsWord rest.head? = true)
    (hclosed : ∀ i ∈ closed, m.column < i) (hindents : ∀ i ∈ indents, i ≤ m.column)
    (hnext : ∀ m' taken, m.column ≤ m'.column →
      (ready ⟨rest, m'⟩ taken (m.column :: indents) false).Delivers ks) :
    (ready ⟨k.chars ++ ':' :: rest, m⟩ taken (closed ++ m.column :: indents) true).Delivers
      (List.replicate closed.length .blockEnd ++ .key :: .scalar .plain k.chars :: .value :: ks) := by
  have hopens : opens m.column (m.column :: indents) = false := decide_eq_false (Nat.lt_irrefl _)
  have hkey := @delivers_key k rest m (m.column :: indents) ks ⟨k.chars ++ ':' :: rest, m⟩ true closed taken
    (skip_to_token_word k _ m) hrest hclosed (by simpa using hindents)
  rw [indentsBehind, keyTokens, hopens] at hkey
  exact hkey hnext

end key

/-! ## Values -/

/-- A word behind a colon, with the line that follows it. -/
theorem delivers_word (w : Word) {column : Nat} {rest : List Char} {m : Mark} {taken : Nat}
    {indents : List Nat} {ks : List TokenKind} (hindents : ∀ i ∈ indents, i ≤ m.column)
    (hcolumn : column < indents.head?.elim 0 (· + 1)) (hrest : ∀ c ∈ rest.head?, isGap c = false)
    (hnext : ∀ m taken, m.column = column → (ready ⟨rest, m⟩ taken indents true).Delivers ks) :
    (ready ⟨' ' :: (w.chars ++ '\n' :: (blanks column ++ rest)), m⟩ taken indents false).Delivers
      (.scalar .plain w.chars :: ks) := by
  have hskip : skipToToken false false false (' ' :: (w.chars ++ '\n' :: (blanks column ++ rest))) m =
      (false, ⟨w.chars ++ '\n' :: (blanks column ++ rest), m.after ' '⟩) :=
    skip_to_token_word w _ _
  have hafter : ∀ i ∈ indents, i ≤ (m.after ' ').column := fun i hi => Nat.le_succ_of_le (hindents i hi)
  obtain ⟨m', hm', hplain⟩ : ∃ m' : Mark, m'.column = column ∧
      (closing ⟨w.chars ++ '\n' :: (blanks column ++ rest), m.after ' '⟩ 0 taken indents false).readPlain =
        .ok ⟨⟨rest, m'⟩, [⟨.scalar .plain w.chars, m.after ' ', m'⟩], taken, indents, none, [], true⟩ := by
    refine ⟨_, column_after_line ((m.after ' ').afterAll w.chars) column, ?_⟩
    simp [readPlain, closing, saveKey, inFlow, w.plain_scalar_value hcolumn hrest, pushTo, push, mark, bind,
      Except.bind, pure, Except.pure]
  have hadvance := @advance_ready ⟨_, m⟩ _ _ _ taken [] indents hskip (by simp) hafter
  rw [read_token_of_word rfl, List.length_nil, hplain] at hadvance
  exact delivers_of_advance rfl (List.cons_ne_nil _ _) hadvance fun taken => hnext m' taken hm'

/-- The end of a text, behind the ends of all mappings that are open. -/
theorem delivers_end {m : Mark} (hm : m.column = 0) (taken : Nat) {closed indents : List Nat}
    (hclosed : ∀ i ∈ closed, m.column < i) (hindents : ∀ i ∈ indents, i ≤ m.column) :
    (ready ⟨[], m⟩ taken (closed ++ indents) true).Delivers
      (List.replicate (closed ++ indents).length .blockEnd ++ [.textEnd]) := by
  have htake : indents.takeWhile (fun _ => true) = indents := List.takeWhile_eq_self_iff.2 fun _ _ => rfl
  have hdrop : indents.dropWhile (fun _ => true) = [] := List.dropWhile_eq_nil_iff.2 fun _ _ => rfl
  have hend : (closing ⟨[], m⟩ closed.length taken indents true).readToken =
      .ok ⟨⟨[], m⟩, List.replicate (closed ++ indents).length (.at .blockEnd m) ++ [.at .textEnd m], taken, [],
        none, [], false⟩ := by
    simp [readToken, readEnd, closing, mark, hm, closeBlocks, inFlow, dropKey, push, htake, hdrop,
      List.map_const', bind, Except.bind, pure, Except.pure]
  have hadvance := @advance_ready ⟨[], m⟩ _ true _ taken closed indents rfl hclosed hindents
  rw [hend] at hadvance
  have hread := @delivers_of_advance _ _ _ _ _ _ [] rfl (by simp) hadvance fun _ => trivial
  simpa [Token.at] using hread

end TokenStream

/-! ## Mappings -/

section mappings
open TokenStream

/-- What comes behind a block or behind entries in `column`: a token in column `next`, in front of which all
mappings end that lie further in. -/
def GoesOn (column : Nat) (indents : List Nat) (next : Nat) (rest : List Char) (ks : List TokenKind) : Prop :=
  ∀ (m : Mark) (taken : Nat) (closed : List Nat), m.column = next → (∀ i ∈ closed, column < i) →
    (ready ⟨rest, m⟩ taken (closed ++ column :: indents) true).Delivers
      (List.replicate closed.length .blockEnd ++ ks)

variable {column next : Nat} {indents : List Nat} {rest : List Char} {ks : List TokenKind}

/-- A mapping that lies further in ends in front of what follows. -/
theorem GoesOn.close (h : GoesOn column indents next rest ks) {inner : Nat} (hinner : column < inner) :
    GoesOn inner (column :: indents) next rest (.blockEnd :: ks) := by
  intro m taken closed hm hclosed
  have hall : ∀ i ∈ closed ++ [inner], column < i := fun i hi => by
    rcases List.mem_append.1 hi with hi | hi
    · exact Nat.lt_trans hinner (hclosed i hi)
    · rwa [List.mem_singleton.1 hi]
  simpa [List.replicate_succ'] using h m taken (closed ++ [inner]) hm hall

mutual

theorem Block.delivers (b : Block) {column next : Nat} {indents : List Nat} {rest : List Char}
    {ks : List TokenKind} {m : Mark} (taken : Nat) (hm : column ≤ m.column) (hnext : next ≤ column)
    (hrest : ∀ c ∈ rest.head?, isGap c = false) (hindents : ∀ i ∈ indents, i ≤ column)
    (hgo : GoesOn column indents next rest ks) :
    (ready ⟨b.text column ++ (blanks next ++ rest), m⟩ taken (column :: indents) false).Delivers
      (b.tokens ++ ks) := by
  cases b with
  | word w =>
    have hopen : ∀ i ∈ column :: indents, i ≤ m.column :=
      List.forall_mem_cons.2 ⟨hm, fun i hi => Nat.le_trans (hindents i hi) hm⟩
    simp only [Block.text, Block.tokens, List.cons_append, List.append_assoc, List.nil_append]
    refine delivers_word w hopen (Nat.lt_succ_of_le hnext) hrest fun m taken hcolumn => ?_
    exact hgo m taken [] hcolumn (by simp)
  | mapping entries =>
    have hinner : column < column + 2 := Nat.lt_add_of_pos_right (by decide)
    have hcolumn := column_after_line m (column + 2)
    have hopen : ∀ i ∈ column :: indents, i < column + 2 :=
      List.forall_mem_cons.2 ⟨hinner, fun i hi => Nat.lt_of_le_of_lt (hindents i hi) hinner⟩
    simp only [Block.text, Block.tokens, List.cons_append, List.append_assoc, List.nil_append]
    refine delivers_first_key entries.key (m.afterAll ('\n' :: blanks (column + 2))) taken
      ((skip_to_token_line _).trans (skip_to_token_word _ _ _)) (entries.ends_word_body _ _)
      (by rwa [hcolumn]) ?_
    rw [hcolumn]
    intro m' taken hm'
    exact entries.delivers taken hm' (Nat.le_trans hnext hinner.le) hrest (fun i hi => (hopen i hi).le)
      (hgo.close hinner)

theorem Entries.delivers (entries : Entries) {column next : Nat} {indents : List Nat} {rest : List Char}
    {ks : List TokenKind} {m : Mark} (taken : Nat) (hm : column ≤ m.column) (hnext : next ≤ column)
    (hrest : ∀ c ∈ rest.head?, isGap c = false) (hindents : ∀ i ∈ indents, i ≤ column)
    (hgo : GoesOn column indents next rest ks) :
    (ready ⟨entries.body column ++ (blanks next ++ rest), m⟩ taken (column :: indents) false).Delivers
      (entries.bodyTokens ++ ks) := by
  cases entries with
  | one key value => exact value.delivers taken hm hnext hrest hindents hgo
  | more key value others =>
    simp only [Entries.body, Entries.bodyTokens, List.cons_append, List.append_assoc]
    refine value.delivers taken hm (Nat.le_refl column) (others.key.head_not_gap _) hindents ?_
    -- The next key stands in the same column, in front of which all ends that the value has left open.
    intro m taken closed hcolumn hclosed
    subst hcolumn
    refine delivers_further_key others.key m taken (others.ends_word_body _ _) hclosed hindents ?_
    intro m' taken hm'
    exact others.delivers taken hm' hnext hrest hindents hgo

end

/-- The tokens of a text that is a block mapping. -/
theorem Entries.stream_delivers (entries : Entries) :
    (TokenStream.ofText (entries.text 0)).Delivers
      (.blockMappingStart :: (entries.tokens ++ [.blockEnd, .textEnd])) := by
  have hend : GoesOn 0 [] 0 [] [.blockEnd, .textEnd] := by
    intro m taken closed hm hclosed
    simpa [List.replicate_succ'] using delivers_end hm taken (by rwa [hm]) (List.forall_mem_singleton.2 hm.ge)
  refine delivers_first_key entries.key .start 0 (skip_to_token_word entries.key _ _) ?_ (by simp) ?_
  · simpa using entries.ends_word_body 0 []
  · intro m taken hm
    have hbody := entries.delivers taken hm (Nat.le_refl 0) (by simp) (by simp) hend
    rwa [List.append_nil, show blanks 0 = [] from rfl, List.append_nil] at hbody

end mappings
end PythonFlow.Yaml
