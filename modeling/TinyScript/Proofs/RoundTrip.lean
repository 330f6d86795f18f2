import Mathlib
import TinyScript.Proofs.Grammar.Exactness
import TinyScript.Proofs.Printing

/-!
# Printing and parsing again

The programs that source texts spell are the well-formed ones, and the text that such a program is
printed as spells it again.
-/

set_option autoImplicit false

namespace TinyScript

theorem Node.source_of_spell {place : Place} {node : Node} {words : List Token}
    (spelled : node.spell place = .ok words) :
    node.source place = .ok (String.ofList (Token.layout words)) := by
  unfold source
  rw [spelled]
  rfl

theorem Node.spellAll_single {statement : Node} {words : List Token}
    (spelled : statement.spell .statement = .ok words) : spellAll [statement] = .ok words := by
  simp [spellAll, spelled, bind, Except.bind, pure, Except.pure]

namespace Program

theorem endMark_not_mem_of_isScanned {words : List Token}
    (scanned : ∀ word ∈ words, word.isScanned = true) : Token.endMark ∉ words :=
  fun member => Bool.noConfusion (scanned _ member)

theorem ofSource_of_scan {source : String} {tokens : List Token}
    (scanned : Token.scan source = .ok tokens) : ofSource source = ofTokens tokens := by
  unfold ofSource Token.ofSource
  rw [scanned]
  rfl

theorem scan_of_ofSource {source : String} {program : Program}
    (parsed : ofSource source = .ok program) : ∃ tokens, Token.scan source = .ok tokens := by
  cases result : Token.scan source with
  | ok tokens => exact ⟨tokens, rfl⟩
  | error fault =>
      unfold ofSource Token.ofSource at parsed
      rw [result] at parsed
      cases parsed

theorem areWellFormed_of_ofSource {source : String} {program : Program}
    (parsed : ofSource source = .ok program) : Node.areWellFormed program = true := by
  obtain ⟨tokens, scan⟩ := scan_of_ofSource parsed
  obtain ⟨words, rfl, scanned⟩ := Token.scan_shape scan
  rw [ofSource_of_scan scan] at parsed
  obtain ⟨derivation⟩ := (ofTokens_eq_ok_iff (endMark_not_mem_of_isScanned scanned)).mp parsed
  exact derivation.isWellFormed scanned

theorem source_of_spellAll {program : Program} {words : List Token}
    (spelled : Node.spellAll program = .ok words) :
    program.source = .ok (String.ofList (Token.layout words)) := by
  unfold source
  rw [spelled]
  rfl

/-- Every well-formed program is printed, and parsed back from what is printed. -/
theorem source_of_areWellFormed {program : Program}
    (wellFormed : Node.areWellFormed program = true) :
    ∃ text, program.source = .ok text ∧ ofSource text = .ok program := by
  obtain ⟨words, spelled, plain, derives⟩ := Node.printsAll_of_areWellFormed program wellFormed
  obtain ⟨derivation⟩ := derives .endMark (by simp)
  refine ⟨_, source_of_spellAll spelled, ?_⟩
  rw [ofSource_of_scan (Token.scan_layout plain)]
  exact (ofTokens_eq_ok_iff derivation.endMark_not_mem).mpr ⟨derivation⟩

/-- A program that was parsed is printed as a text that is parsed as the same program. -/
theorem source_reparses {source : String} {program : Program}
    (parsed : ofSource source = .ok program) :
    ∃ text, program.source = .ok text ∧ ofSource text = .ok program :=
  source_of_areWellFormed (areWellFormed_of_ofSource parsed)

/-- A condition without alternative inside of one with an alternative, and a chain that groups to
the right. -/
theorem source_reparses_nested :
    ∃ text, source [.ifElse (.name "a") (.block [.ifThen (.name "b") (.name "c")])
        (.binary .sub (.int 1) (.binary .sub (.int 2) (.func [] [])))] = .ok text ∧
      ofSource text = .ok [.ifElse (.name "a") (.block [.ifThen (.name "b") (.name "c")])
        (.binary .sub (.int 1) (.binary .sub (.int 2) (.func [] [])))] := by
  have parsed : ofSource "if a \x7b if b c \x7d else 1 - (2 - (fn() \x7b\x7d));" =
      .ok [.ifElse (.name "a") (.block [.ifThen (.name "b") (.name "c")])
        (.binary .sub (.int 1) (.binary .sub (.int 2) (.func [] [])))] := by
    cbv
  exact source_reparses parsed

/-- The programs that source texts spell are exactly the well-formed ones. -/
theorem exists_source_iff_areWellFormed (program : Program) :
    (∃ source, ofSource source = .ok program) ↔ Node.areWellFormed program = true := by
  constructor
  · rintro ⟨source, parsed⟩
    exact areWellFormed_of_ofSource parsed
  · intro wellFormed
    obtain ⟨text, _, reparsed⟩ := source_of_areWellFormed wellFormed
    exact ⟨text, reparsed⟩

/-- An alternative cannot belong to an outer condition if an inner one would take it. -/
example :
    Node.areWellFormed [.ifElse (.name "a") (.ifThen (.name "b") (.name "c")) (.name "d")] =
      false := by
  decide

end Program

end TinyScript
