import Mathlib.Data.Prod.Lex
import CSurvey.Proofs.Token.Tiling

/-! # Tokens stand behind each other

Places are ordered by their lines and, on one line, by their columns. Every token of a source stands
behind all the tokens before it. -/

namespace CSurvey

/-- The order of the places in a text. -/
instance : LinearOrder Position :=
  LinearOrder.lift' (fun p => toLex (p.line, p.column)) fun p q h => by
    obtain ⟨hline, hcolumn⟩ := Prod.mk.inj (toLex.injective h)
    cases p
    cases q
    simp_all

namespace Position

theorem le_iff {p q : Position} :
    p ≤ q ↔ p.line < q.line ∨ p.line = q.line ∧ p.column ≤ q.column :=
  Prod.Lex.toLex_le_toLex

theorem lt_iff {p q : Position} :
    p < q ↔ p.line < q.line ∨ p.line = q.line ∧ p.column < q.column :=
  Prod.Lex.toLex_lt_toLex

theorem lt_next (p : Position) (c : Char) : p < p.next c := by
  rw [lt_iff, next]
  split
  · exact .inl (Nat.lt_succ_self _)
  · exact .inr ⟨rfl, Nat.lt_succ_self _⟩

theorem le_after (p : Position) (cs : List Char) : p ≤ p.after cs := by
  induction cs generalizing p with
  | nil => exact le_rfl
  | cons c cs ih =>
      rw [after_cons]
      exact (lt_next p c).le.trans (ih (p.next c))

theorem behind_lt_append (passed : List Char) {cs : List Char} (h : cs ≠ []) :
    behind passed < behind (passed ++ cs) := by
  obtain ⟨c, cs, rfl⟩ := List.exists_cons_of_ne_nil h
  calc behind passed < (behind passed).next c := lt_next _ c
    _ ≤ ((behind passed).next c).after cs := le_after _ cs
    _ = behind (passed ++ c :: cs) := by rw [← after_cons, after_behind]

end Position

theorem Tiles.rising {passed rest : List Char} {tokens : List Token}
    (h : Tiles passed rest tokens) :
    (∀ t ∈ tokens, Position.behind passed ≤ t.location) ∧
      tokens.Pairwise fun t u => t.location < u.location := by
  induction h with
  | finished passed => exact ⟨by simp [Token.endOfInput], List.pairwise_singleton _ _⟩
  | @blank passed c rest tokens hc _ ih =>
      have hlt := Position.behind_lt_append passed (List.cons_ne_nil c [])
      exact ⟨fun t ht => hlt.le.trans (ih.1 t ht), ih.2⟩
  | @token passed t rest tokens ht hl _ ih =>
      have hlt := Position.behind_lt_append passed ht.text_ne
      refine ⟨List.forall_mem_cons.mpr ⟨hl.ge, fun u hu => hlt.le.trans (ih.1 u hu)⟩, ?_⟩
      exact List.pairwise_cons.mpr ⟨fun u hu => hl.trans_lt (hlt.trans_le (ih.1 u hu)), ih.2⟩

/-- Of two tokens of a source the later one stands behind the earlier one. -/
theorem rising_of_tokenize {source : String} {tokens : List Token}
    (h : tokenize source = .ok tokens) :
    tokens.Pairwise fun t u => t.location < u.location :=
  (tiles_of_tokenize h).rising.2

end CSurvey
