import TalkingCalculator.Expression.Evaluation
import TalkingCalculator.Proofs.LexicalSoundness
import TalkingCalculator.Proofs.PreparedTexts

namespace TalkingCalculator

open Input Lexer

def textTokens (s : String) : Except Fault (List Token) :=
  prepare s >>= tokenize

/-- The value of an expression that is given by its tokens. -/
def evaluateTokens (degrees : Bool) (ts : List Token) : Except Fault Float :=
  toPostfix ts >>= fun ordered => Tree.ofPostfix ordered >>= fun t =>
    (if degrees then t.inDegrees else t).value

theorem parse_eq_textTokens (s : String) :
    parse s = textTokens s >>= fun ts => toPostfix ts >>= Tree.ofPostfix := by
  simp only [parse, textTokens, bind_assoc]

theorem eq_of_prepare_eq_ok {s prepared : String} (h : prepare s = .ok prepared) :
    prepared = String.ofList (expandPercent (replaceGlyphs (Text.trim s.toList))) := by
  simp only [prepare] at h
  split at h
  · cases h
  · obtain ⟨-, -, h⟩ := exists_of_bind_eq_ok h
    cases h
    rfl

theorem exists_writes_of_textTokens {s : String} {ts : List Token} (h : textTokens s = .ok ts) :
    ∃ ls, Writes (replaceGlyphs s.toList) ls ∧ ts = ls.flatMap Lexeme.tokens := by
  obtain ⟨prepared, hprepared, htokens⟩ := exists_of_bind_eq_ok h
  rw [eq_of_prepare_eq_ok hprepared, tokenize, String.toList_ofList] at htokens
  obtain ⟨ls, hwrites, hts⟩ := exists_writes_of_tokens htokens
  exact ⟨ls, writes_replaceGlyphs_trim_iff.1 hwrites, hts⟩

theorem textTokens_of_writes {s : String} {ls : List Lexeme}
    (h : Writes (replaceGlyphs s.toList) ls) (hchain : ls.IsChain Lexeme.Separable)
    (hne : ls ≠ []) : textTokens s = .ok (ls.flatMap Lexeme.tokens) := by
  rw [textTokens, prepare_of_writes h hchain hne]
  change tokenize _ = _
  rw [tokenize, String.toList_ofList]
  exact tokens_of_writes (writes_replaceGlyphs_trim_iff.2 h) hchain

end TalkingCalculator
