import StackMachine.Proofs.Assembly.Grammar

/-!
# Comment lines

A line that begins with a hash has no words. Which lines are refused, and what the others amount to,
depends on the words of the lines alone, so comment lines around a listing leave its program as it
is.
-/

namespace StackMachine.Assembly

set_option autoImplicit false

def IsComment (line : Text) : Prop := line.head? = some hash

theorem words_comment (line : Text) (comment : IsComment line) : words line = [] := by
  obtain ⟨rest, rfl⟩ := List.head?_eq_some_iff.mp comment
  have stripped : ((hash :: rest).takeWhile fun byte => byte ≠ hash) = [] :=
    List.takeWhile_cons_of_neg (by simp)
  rw [words, stripped, List.splitOnP_nil]
  simp

theorem no_comment_after_word (word rest : Text) (plain : Plain word) :
    ¬IsComment (word ++ rest) := by
  obtain ⟨byte, others, rfl⟩ := List.exists_cons_of_ne_nil plain.nonempty
  intro comment
  exact (plain.bytes byte (by simp)).2 (Option.some.inj comment)

/-- Every line of a listing begins with the name of a directive or with a mnemonic. -/
theorem no_comment_listed (program : Program) :
    ∀ line ∈ listingLines program, ¬IsComment line := by
  have directive (name : Directive) (value : Text) : ¬IsComment (directiveLine name value) := by
    rw [directiveLine, List.append_assoc]
    exact no_comment_after_word _ _ (plain_directive name)
  intro line member
  simp only [listingLines, List.mem_cons, List.mem_map] at member
  rcases member with rfl | rfl | rfl | ⟨instr, -, rfl⟩
  · exact directive _ _
  · exact directive _ _
  · exact directive _ _
  · have mnemonic := plain_mnemonic instr.opcode
    rw [Instr.text]
    cases instr.operand? with
    | none => simpa using no_comment_after_word _ [] mnemonic
    | some operand =>
        simp only [List.append_assoc]
        exact no_comment_after_word _ _ mnemonic

theorem sentences_append (front back : List Text) :
    sentences (front ++ back) = sentences front ++ sentences back := by
  rw [sentences, List.map_append, List.filter_append, sentences, sentences]

theorem sentences_comments (lines : List Text) (comments : ∀ line ∈ lines, IsComment line) :
    sentences lines = [] := by
  refine List.filter_eq_nil_iff.mpr fun sentence member => ?_
  obtain ⟨line, known, rfl⟩ := List.mem_map.mp member
  simp [words_comment line (comments line known)]

theorem absorb_lines_same_words (draft after : Draft) (number otherNumber : Nat)
    (lines others : List Text) (same : sentences others = sentences lines)
    (absorbed : draft.absorbLines number lines = (after, [])) :
    draft.absorbLines otherNumber others = (after, []) := by
  rw [absorb_lines_iff] at absorbed ⊢
  rwa [same]

/-- A text with the words of a listing is read as the listed program. -/
theorem parse_same_words (program : Program) (lines : List Text)
    (clean : ∀ line ∈ lines, Text.newline ∉ line)
    (same : sentences lines = sentences (listingLines program)) :
    parse (Text.terminated lines) = .ok program := by
  have absorbed : Draft.blank.absorbLines 1 lines =
      (⟨listedHeader program, program.code.reverse, true⟩, []) :=
    absorb_lines_same_words _ _ _ _ _ _ same (absorb_listing program)
  have whole : (Draft.mk (listedHeader program) program.code.reverse true).program =
      .ok program := by
    simp only [Draft.program, listedHeader, List.reverse_reverse, Option.getD_some]
    exact create_fields program
  simp only [parse, Text.lines_terminated lines clean, absorbed, whole]

theorem parse_commented_listing (program : Program) (front back : List Text)
    (comments : ∀ line ∈ front ++ back, IsComment line)
    (clean : ∀ line ∈ front ++ back, Text.newline ∉ line) :
    parse (Text.terminated (front ++ listingLines program ++ back)) = .ok program := by
  simp only [List.mem_append] at comments clean
  refine parse_same_words program _ (fun line member => ?_) ?_
  · rcases List.mem_append.mp member with earlier | last
    · rcases List.mem_append.mp earlier with first | listed
      · exact clean line (.inl first)
      · exact listing_lines_clean program line listed
    · exact clean line (.inr last)
  · rw [sentences_append, sentences_append,
      sentences_comments front fun line member => comments line (.inl member),
      sentences_comments back fun line member => comments line (.inr member),
      List.nil_append, List.append_nil]

end StackMachine.Assembly
