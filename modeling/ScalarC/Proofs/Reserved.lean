import ScalarC.Scanner.Tokens

/-!
The words of the four types are reserved: in a scanned source they are keywords,
never identifiers.
-/

namespace ScalarC

/-- No identifier is spelled like a type. -/
def TypesReserved (tokens : List Token) : Prop :=
  ∀ token ∈ tokens, token.kind = .identifier → token.text ∉ ["int", "long", "float", "double"]

instance (tokens : List Token) : Decidable (TypesReserved tokens) :=
  inferInstanceAs (Decidable (∀ token ∈ tokens, token.kind = .identifier →
    token.text ∉ ["int", "long", "float", "double"]))

namespace Scanner

theorem numeral_result (text : List Char) {kind : TokenKind}
    (read : (numeral text).result = .ok kind) : kind = .number := by
  unfold numeral hexadecimal decimal complete at read
  grind

theorem lexeme_reserved {c : Char} {rest : List Char}
    (read : (lexeme c rest).result = .ok .identifier) :
    String.ofList (lexeme c rest).taken ∉ Lexeme.keywords := by
  unfold lexeme at read ⊢
  split at read
  · cases numeral_result _ read
  rename_i noNumber
  rw [if_neg noNumber]
  split at read
  · rename_i isWord
    rw [if_pos isWord]
    intro reserved
    simp only [word] at read reserved
    rw [if_pos reserved] at read
    cases read
  rename_i noWord
  split at read
  · cases read
  · split at read <;> cases read

theorem tokens_reserved (scanner : Scanner) :
    ∀ read, scanner.tokens.1 = .ok read → TypesReserved read := by
  fun_induction Scanner.tokens scanner with
  | case1 | case3 => nofun
  | case2 =>
      intro read done
      cases done
      exact List.forall_mem_singleton.mpr nofun
  | case4 _ _ _ _ _ _ _ found _ others _ split ih =>
      intro read done
      rw [split] at ih
      cases others with
      | error fault => cases done
      | ok others =>
          cases done
          -- A word that is no keyword is an identifier, and all words of types are keywords.
          refine List.forall_mem_cons.mpr ⟨?_, ih _ rfl⟩
          rintro rfl type
          have keywords : ["int", "long", "float", "double"] ⊆ Lexeme.keywords := by decide
          exact lexeme_reserved found (keywords type)

end Scanner

/-- The tokens of a source text keep the words of the types to keywords. -/
theorem tokenize_reserved {source : String} {tokens : List Token}
    (read : tokenize source = .ok tokens) : TypesReserved tokens :=
  Scanner.tokens_reserved _ _ read

end ScalarC
