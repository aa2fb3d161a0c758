import PythonFlow.Proofs.Yaml.Words
import PythonFlow.Yaml.Document

/-!
# Block mappings

Mappings of words, nested to any depth and written line by line, each two columns further in than the one
around it. Beside the text of such a mapping stand its tokens and its parts.
-/

set_option autoImplicit false

namespace PythonFlow.Yaml

mutual

inductive Block where
  | word (w : Word)
  | mapping (entries : Entries)

inductive Entries where
  | one (key : Word) (value : Block)
  | more (key : Word) (value : Block) (rest : Entries)

end

namespace Entries

def key : Entries → Word
  | one k _ => k
  | more k _ _ => k

end Entries

mutual

/-- The text behind a colon, where the key stands in `column`. -/
def Block.text (column : Nat) : Block → List Char
  | .word w => ' ' :: (w.chars ++ ['\n'])
  | .mapping entries =>
    '\n' :: (blanks (column + 2) ++ (entries.key.chars ++ ':' :: entries.body (column + 2)))

def Entries.body (column : Nat) : Entries → List Char
  | .one _ value => value.text column
  | .more _ value rest =>
    value.text column ++ (blanks column ++ (rest.key.chars ++ ':' :: rest.body column))

end

/-- The text of entries in `column`, but for the indentation of the first of them. -/
def Entries.text (column : Nat) (entries : Entries) : List Char :=
  entries.key.chars ++ ':' :: entries.body column

theorem Block.ends_word_text (b : Block) (column : Nat) (tail : List Char) :
    endsWord (b.text column ++ tail).head? = true := by
  cases b <;> rfl

theorem Entries.ends_word_body (entries : Entries) (column : Nat) (tail : List Char) :
    endsWord (entries.body column ++ tail).head? = true := by
  cases entries with
  | one key value => exact value.ends_word_text column tail
  | more key value rest =>
    rw [Entries.body, List.append_assoc]
    exact value.ends_word_text column _

mutual

def Block.tokens : Block → List TokenKind
  | .word w => [.scalar .plain w.chars]
  | .mapping entries =>
    .blockMappingStart :: .key :: .scalar .plain entries.key.chars :: .value ::
      (entries.bodyTokens ++ [.blockEnd])

def Entries.bodyTokens : Entries → List TokenKind
  | .one _ value => value.tokens
  | .more _ value rest =>
    value.tokens ++ .key :: .scalar .plain rest.key.chars :: .value :: rest.bodyTokens

end

def Entries.tokens (entries : Entries) : List TokenKind :=
  .key :: .scalar .plain entries.key.chars :: .value :: entries.bodyTokens

mutual

def Block.parts : Block → List Part
  | .word w => [.scalar none .plain w.chars]
  | .mapping entries => .mappingStart :: (entries.parts ++ [.mappingEnd])

def Entries.parts : Entries → List Part
  | .one key value => .scalar none .plain key.chars :: value.parts
  | .more key value rest => .scalar none .plain key.chars :: (value.parts ++ rest.parts)

end

/-! ## Characters and sizes -/

def isTextChar (c : Char) : Bool := isWordChar c || [' ', ':', '\n'].contains c

theorem Word.text_chars (w : Word) : ∀ c ∈ w.chars, isTextChar c = true := fun c hc => by
  rw [isTextChar, w.allowed c hc, Bool.true_or]

theorem text_chars_blanks (n : Nat) : ∀ c ∈ blanks n, isTextChar c = true := fun c hc => by
  rw [eq_of_mem_blanks hc]
  decide

mutual

theorem Block.text_chars (b : Block) (column : Nat) : ∀ c ∈ b.text column, isTextChar c = true := by
  cases b with
  | word w =>
    rw [Block.text, List.forall_mem_cons, List.forall_mem_append, List.forall_mem_singleton]
    exact ⟨by decide, w.text_chars, by decide⟩
  | mapping entries =>
    rw [Block.text, List.forall_mem_cons, List.forall_mem_append, List.forall_mem_append, List.forall_mem_cons]
    exact ⟨by decide, text_chars_blanks _, entries.key.text_chars, by decide, entries.body_chars _⟩

theorem Entries.body_chars (entries : Entries) (column : Nat) :
    ∀ c ∈ entries.body column, isTextChar c = true := by
  cases entries with
  | one key value => exact value.text_chars column
  | more key value rest =>
    rw [Entries.body, List.forall_mem_append, List.forall_mem_append, List.forall_mem_append,
      List.forall_mem_cons]
    exact ⟨value.text_chars column, text_chars_blanks _, rest.key.text_chars, by decide, rest.body_chars column⟩

end

theorem Entries.text_chars (entries : Entries) (column : Nat) :
    ∀ c ∈ entries.text column, isTextChar c = true := by
  rw [Entries.text, List.forall_mem_append, List.forall_mem_cons]
  exact ⟨entries.key.text_chars, by decide, entries.body_chars column⟩

mutual

/-- Every part takes a character at least. -/
theorem Block.length_parts_le (b : Block) (column : Nat) : b.parts.length ≤ (b.text column).length := by
  cases b with
  | word w => simp [Block.parts, Block.text]
  | mapping entries =>
    have hentries := entries.length_parts_le (column + 2)
    simp [Block.parts, Block.text, Entries.text, blanks] at hentries ⊢
    omega

theorem Entries.length_parts_le (entries : Entries) (column : Nat) :
    entries.parts.length ≤ (entries.text column).length := by
  cases entries with
  | one key value =>
    have hvalue := value.length_parts_le column
    simp [Entries.parts, Entries.text, Entries.body]
    omega
  | more key value rest =>
    have hvalue := value.length_parts_le column
    have hrest := rest.length_parts_le column
    simp [Entries.parts, Entries.text, Entries.body] at hrest ⊢
    omega

end

end PythonFlow.Yaml
