import CSurvey.Listing
import CSurvey.Proofs.Token.Written

/-! # Listings and their lines

A listing is written a line a text. No line of it has a newline in it, so that the lines are found
again at the newlines; and what stands on a line is told apart by its first blank. -/

namespace CSurvey

/-- Two texts that are told apart by where a class of characters ends have the same two parts. -/
theorem Text.append_inj_of_head {p : Char → Bool} {cs ds rest rest' : List Char}
    (hcs : ∀ c ∈ cs, p c = true) (hds : ∀ c ∈ ds, p c = true)
    (hrest : ∀ c ∈ rest.head?, p c = false) (hrest' : ∀ c ∈ rest'.head?, p c = false)
    (h : cs ++ rest = ds ++ rest') : cs = ds ∧ rest = rest' := by
  obtain ⟨htake, hdrop⟩ := Token.Lexeme.takeWhile_append hcs hrest
  obtain ⟨htake', hdrop'⟩ := Token.Lexeme.takeWhile_append hds hrest'
  rw [h] at htake hdrop
  exact ⟨htake.symm.trans htake', hdrop.symm.trans hdrop'⟩

namespace Findings

theorem toList_asLines (texts : List String) :
    (asLines texts).toList = ['\n'].intercalate (texts.map String.toList ++ [[]]) := by
  induction texts with
  | nil => rfl
  | cons text texts ih =>
      have hne : texts.map String.toList ++ [[]] ≠ [] := by simp
      have hcons : (asLines (text :: texts)).toList =
          text.toList ++ '\n' :: (asLines texts).toList := by
        simp [asLines]
      rw [hcons, ih, List.map_cons, List.cons_append, List.intercalate_cons_of_ne_nil hne,
        List.append_assoc]
      rfl

/-- Cut at its newlines, a listing comes to the texts that are written a line each, with nothing
behind the last of them. -/
theorem splitOn_asLines {texts : List String} (h : ∀ text ∈ texts, '\n' ∉ text.toList) :
    (asLines texts).toList.splitOn '\n' = texts.map String.toList ++ [[]] := by
  rw [toList_asLines, List.splitOn_intercalate _ _ (by simp)]
  intro line hline
  rcases List.mem_append.mp hline with hline | hline
  · obtain ⟨text, htext, rfl⟩ := List.mem_map.mp hline
    exact h text htext
  · simp [List.mem_singleton.mp hline]

/-- A listing determines its lines. -/
theorem asLines_inj {texts texts' : List String} (h : ∀ text ∈ texts, '\n' ∉ text.toList)
    (h' : ∀ text ∈ texts', '\n' ∉ text.toList) (heq : asLines texts = asLines texts') :
    texts = texts' := by
  have hsplit := splitOn_asLines h
  rw [heq, splitOn_asLines h'] at hsplit
  have hlists := List.append_cancel_right hsplit
  exact ((List.map_inj_right fun _ _ => String.toList_inj.mp).mp hlists).symm

end Findings

end CSurvey
