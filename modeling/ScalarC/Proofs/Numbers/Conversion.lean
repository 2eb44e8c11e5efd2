import ScalarC.Proofs.Numbers.Floats
import ScalarC.Proofs.Spelling.Endings

/-!
Numbers as the scanner reads them, and as their values are found from their texts
alone. Both know the same numerals: one that is read has a value at each type or
does not fit there, and it is fractional exactly if the scanner has met a point or
an exponent in it.
-/

namespace ScalarC

theorem DataType.exists_format {type : DataType} (float : type.isInteger = false) :
    ∃ format, type.format? = some format := by
  cases type with
  | i32 | i64 => cases float
  | f32 => exact ⟨.binary32, rfl⟩
  | f64 => exact ⟨.binary64, rfl⟩

/-- A numeral is never malformed: at each type it has a value or does not fit. -/
theorem Literal.value_of_numeral {text : String} (isNumeral : Scanner.IsNumeral text.toList)
    (negative : Bool) (type : DataType) (place : Location) :
    (∃ found, Literal.value ⟨text, negative, place⟩ type = .ok found) ∨
      ∃ fault, Literal.value ⟨text, negative, place⟩ type = .error (.typeMismatch fault place) := by
  have tested {choice : Prop} [Decidable choice] {found : NodeValue} {fault : TypeFault}
      (own : Literal.value ⟨text, negative, place⟩ type =
        if choice then .ok found else .error (.typeMismatch fault place)) :
      (∃ found, Literal.value ⟨text, negative, place⟩ type = .ok found) ∨
        ∃ fault, Literal.value ⟨text, negative, place⟩ type =
          .error (.typeMismatch fault place) := by
    by_cases holds : choice
    · exact .inl ⟨_, own.trans (if_pos holds)⟩
    · exact .inr ⟨_, own.trans (if_neg holds)⟩
  cases kind : type.isInteger with
  | true =>
      rcases Scanner.isNumeral_iff.mp isNumeral with ⟨number, whole⟩ | ⟨number, fraction⟩
      · exact tested (value_of_whole kind whole negative place)
      · exact .inr ⟨_, value_of_fraction kind fraction negative place⟩
  | false =>
      obtain ⟨format, float⟩ := DataType.exists_format kind
      rcases Scanner.isNumeral_iff.mp isNumeral with ⟨number, whole⟩ | ⟨number, fraction⟩
      · obtain ⟨_, _, _, own⟩ := floatValue_of_whole float whole negative place
        exact tested own
      · obtain ⟨_, _, _, own⟩ := floatValue_of_fraction float fraction negative place
        exact tested own

namespace Scanner

/-- Whether the scanner, on its way through what comes next, takes a point into the mantissa of a
decimal number or meets the mark of an exponent behind it. -/
def ScansFraction (text : List Char) : Prop :=
  (∀ radix ∈ [['0', 'x'], ['0', 'X']], ¬ radix <+: text) ∧
    ('.' ∈ (mantissa text).1 ∨ (exponentMark (mantissa text).2).isSome = true)

theorem exponentMark_of_decimal {exponent rest : List Char} (isExponent : IsExponent exponent)
    (stops : ∀ c ∈ rest.head?, isWordCharacter c = false) :
    (exponentMark (exponent ++ rest)).isSome = true ↔ exponent ≠ [] := by
  cases isExponent with
  | none => simp [exponentMark_of_stop stops]
  | power isMark isSign run =>
      rw [exponentMark_of_power isMark isSign run]
      simp

theorem scansFraction_iff {text : String} {rest : List Char} (isNumeral : IsNumeral text.toList)
    (ends : Lexeme.EndsBefore ⟨.number, text⟩ rest) :
    ScansFraction (text.toList ++ rest) ↔ Literal.isFractional text = true := by
  generalize same : text.toList = characters at isNumeral ⊢
  obtain rfl : text = String.ofList characters := by rw [← same, String.ofList_toList]
  cases isNumeral with
  | @decimal body exponent isMantissa isExponent =>
      have stops := decimal_stops isMantissa isExponent ends
      have some : body ++ exponent ≠ [] :=
        List.append_ne_nil_of_left_ne_nil isMantissa.ne_nil exponent
      have noRadix (radix : List Char) (isRadix : radix ∈ [['0', 'x'], ['0', 'X']]) :
          ¬ radix <+: body ++ exponent ++ rest :=
        no_radix_begins some (decimal_not_hexadecimal isMantissa isExponent)
          (fun _ c head => noMark_of_stop (stops c head).1) isRadix
      rw [ScansFraction, mantissa_of_decimal isMantissa isExponent stops,
        exponentMark_of_decimal isExponent fun c head => (stops c head).1,
        isFractional_decimal isMantissa isExponent]
      exact and_iff_right noRadix
  | hexadecimal isRadix run =>
      have whole := IsWhole.not_fractional (same.symm ▸ IsWhole.hexadecimal isRadix run)
      rw [whole, List.append_assoc]
      exact iff_of_false (fun scans => scans.1 _ isRadix (List.prefix_append _ _)) Bool.false_ne_true

end Scanner

/-- The text of a number token has a value at each type or does not fit there, under either sign.
It is fractional exactly if the scanner has met a point or an exponent where it took the text from
the source, which it never looks for behind the mark of a base. -/
theorem number_tokens_convert (source : String) (tokens : List Token)
    (read : tokenize source = .ok tokens) (token : Token) (member : token ∈ tokens)
    (isNumber : token.kind = .number) :
    (∀ negative type place,
      (∃ found, Literal.value ⟨token.text, negative, place⟩ type = .ok found) ∨
        ∃ fault, Literal.value ⟨token.text, negative, place⟩ type =
          .error (.typeMismatch fault place)) ∧
    (∃ before rest, source.toList = before ++ token.text.toList ++ rest ∧
      token.location = Location.behind before ∧
      Scanner.numeral (token.text.toList ++ rest) = ⟨.ok .number, token.text.toList, rest⟩ ∧
      (Literal.isFractional token.text = true ↔
        Scanner.ScansFraction (token.text.toList ++ rest))) ∧
    ∀ radix ∈ [['0', 'x'], ['0', 'X']], radix <+: token.text.toList →
      Literal.isFractional token.text = false := by
  have cut := cut_of_tokens (Scanner.ofString source) [] tokens rfl read
  obtain ⟨front, others, rfl, further⟩ := cut.split_at member (by simp [isNumber])
  obtain ⟨before, rest, whole, place, spelled, ends, _⟩ := cut.parted further
  obtain ⟨⟨kind, text⟩, location⟩ := token
  obtain rfl : kind = .number := isNumber
  have isNumeral := spelled.isNumeral
  have scans := Scanner.scansFraction_iff isNumeral ends
  refine ⟨fun negative type place => Literal.value_of_numeral isNumeral negative type place,
    ⟨before, rest, whole, place, ?_, scans.symm⟩, ?_⟩
  · rw [← String.ofList_toList (s := text)] at ends
    exact Scanner.numeral_of_is isNumeral ends
  · intro radix isRadix begins
    refine Bool.eq_false_iff.mpr fun fractional => ?_
    exact (scans.mpr fractional).1 radix isRadix (begins.trans (List.prefix_append _ _))

section Sample

private def marked : List Token :=
  [⟨⟨.number, "1.e5"⟩, ⟨1, 1⟩⟩, ⟨.punctuation ";", ⟨1, 5⟩⟩, ⟨⟨.number, "0X1E3"⟩, ⟨1, 6⟩⟩,
    ⟨.endOfInput, ⟨1, 11⟩⟩]

theorem number_tokens_convert_marked :
    tokenize "1.e5;0X1E3" = .ok marked ∧
    ((∃ found, Literal.value ⟨"1.e5", true, ⟨1, 1⟩⟩ .f64 = .ok found) ∨
      ∃ fault, Literal.value ⟨"1.e5", true, ⟨1, 1⟩⟩ .f64 =
        .error (.typeMismatch fault ⟨1, 1⟩)) ∧
    (∃ before rest, "1.e5;0X1E3".toList = before ++ "1.e5".toList ++ rest ∧
      ⟨1, 1⟩ = Location.behind before ∧
      Scanner.numeral ("1.e5".toList ++ rest) = ⟨.ok .number, "1.e5".toList, rest⟩ ∧
      (Literal.isFractional "1.e5" = true ↔ Scanner.ScansFraction ("1.e5".toList ++ rest))) ∧
    ['0', 'X'] <+: "0X1E3".toList ∧ Literal.isFractional "0X1E3" = false := by
  have read : tokenize "1.e5;0X1E3" = .ok marked := by decide +kernel
  have decimal := number_tokens_convert _ _ read ⟨⟨.number, "1.e5"⟩, ⟨1, 1⟩⟩ (by decide) rfl
  have hexadecimal := number_tokens_convert _ _ read ⟨⟨.number, "0X1E3"⟩, ⟨1, 6⟩⟩ (by decide) rfl
  have begins : ['0', 'X'] <+: "0X1E3".toList := by decide
  exact ⟨read, decimal.1 true .f64 ⟨1, 1⟩, decimal.2.1, begins,
    hexadecimal.2.2 ['0', 'X'] (by simp) begins⟩

end Sample

end ScalarC
