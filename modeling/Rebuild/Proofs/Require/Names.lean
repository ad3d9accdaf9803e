import Rebuild.Require.Reference
import Mathlib.Tactic

/-!
# The names a source can require

Each reference of a source is one of its string literals, and each literal takes up a character of
its own, so a source holds no more references than characters.
-/

namespace Rebuild.Require

section MapM

variable {α β ε : Type} {f : α → Except ε β} {items : List α}

theorem mapM_eq_ok_iff {found : List β} :
    items.mapM f = .ok found ↔ List.Forall₂ (fun item value => f item = .ok value) items found := by
  induction items generalizing found with
  | nil => cases found <;> simp [pure, Except.pure]
  | cons item items ih =>
      rw [List.mapM_cons]
      cases hitem : f item with
      | error error => cases found <;> simp [bind, Except.bind, hitem]
      | ok value =>
          cases hitems : items.mapM f with
          | error error => cases found <;> simp [bind, Except.bind, hitem, ← ih, hitems]
          | ok values =>
              cases found <;> simp [bind, Except.bind, pure, Except.pure, hitem, ← ih, hitems]

theorem mem_iff_of_mapM_eq_ok {found : List β} {value : β} (hfound : items.mapM f = .ok found) :
    value ∈ found ↔ ∃ item ∈ items, f item = .ok value := by
  induction mapM_eq_ok_iff.1 hfound with
  | nil => simp
  | @cons item first items found hfirst hrest ih =>
      have hmore := ih (mapM_eq_ok_iff.2 hrest)
      simp [hmore, hfirst, eq_comm]

theorem exists_mapM_eq_ok_iff :
    (∃ found, items.mapM f = .ok found) ↔ ∀ item ∈ items, ∃ value, f item = .ok value := by
  simp only [mapM_eq_ok_iff]
  induction items with
  | nil => simp
  | cons item items ih =>
      rw [List.forall_mem_cons, ← ih]
      constructor
      · rintro ⟨_, hfound⟩
        cases hfound with
        | cons hfirst hrest => exact ⟨⟨_, hfirst⟩, _, hrest⟩
      · rintro ⟨⟨value, hfirst⟩, found, hrest⟩
        exact ⟨value :: found, .cons hfirst hrest⟩

end MapM

theorem length_le_of_lexemesFrom {line : Nat} {source : List Char} {parts : List Lexeme}
    (hparts : lexemesFrom line source = .ok parts) : parts.length ≤ source.length := by
  induction hlength : source.length using Nat.strong_induction_on
    generalizing line source parts with
  | _ length ih =>
      subst hlength
      unfold lexemesFrom at hparts
      split at hparts
      next =>
        cases hparts
        exact le_refl 0
      next c rest =>
        split at hparts
        next => cases hparts
        next lexeme after hnext =>
          have hshorter := length_lt_of_next hnext
          cases hafter : lexemesFrom (line + lexeme.text.count '\n') after with
          | error unclosed =>
              rw [hafter] at hparts
              cases hparts
          | ok more =>
              rw [hafter] at hparts
              cases hparts
              have hmore := ih after.length hshorter hafter rfl
              rw [List.length_cons]
              omega

theorem length_literals_le (parts : List Lexeme) : (literals parts).length ≤ parts.length := by
  induction parts with
  | nil => exact le_refl 0
  | cons part rest ih =>
      cases part with
      | code c => exact ih.trans (Nat.le_succ _)
      | comment text => exact ih.trans (Nat.le_succ _)
      | literal opening body closing => exact Nat.succ_le_succ ih

/-- The names that the literals of a source can stand for. -/
def literalNames (source : List Char) : List String :=
  match lexemes source with
  | .error _ => []
  | .ok parts => (literals parts).map fun body => String.ofList (Text.strip body)

theorem length_literalNames_le (source : List Char) :
    (literalNames source).length ≤ source.length := by
  unfold literalNames
  split
  next => exact Nat.zero_le _
  next parts hparts =>
    rw [List.length_map]
    exact (length_literals_le parts).trans (length_le_of_lexemesFrom hparts)

theorem mem_of_literalAt {bodies : List (List Char)} {digits body : List Char}
    (hbody : literalAt bodies digits = .ok body) : body ∈ bodies := by
  unfold literalAt at hbody
  split at hbody
  next =>
    dsimp only at hbody
    split at hbody
    next found hfound =>
      cases hbody
      exact List.mem_of_getElem? hfound
    next => cases hbody
  next => cases hbody

theorem mem_of_mapM_literalAt {bodies found : List (List Char)} {digits : List (List Char)}
    (hfound : digits.mapM (literalAt bodies) = .ok found) : ∀ body ∈ found, body ∈ bodies := by
  intro body hbody
  obtain ⟨_, _, hliteral⟩ := (mem_iff_of_mapM_eq_ok hfound).1 hbody
  exact mem_of_literalAt hliteral

theorem mem_of_mem_collect {name : String} {bodies : List (List Char)} {names : List String}
    (hname : name ∈ collect names bodies) :
    name ∈ names ∨ ∃ body ∈ bodies, name = String.ofList (Text.strip body) := by
  induction bodies generalizing names with
  | nil => exact Or.inl hname
  | cons body rest ih =>
      unfold collect at hname
      dsimp only at hname
      split at hname
      next =>
        exact (ih hname).imp_right fun ⟨other, hother, heq⟩ =>
          ⟨other, List.mem_cons_of_mem body hother, heq⟩
      next =>
        rcases ih hname with hmem | ⟨other, hother, heq⟩
        · rcases List.mem_append.1 hmem with hmem | hmem
          · exact Or.inl hmem
          · exact Or.inr ⟨body, List.mem_cons_self, List.mem_singleton.1 hmem⟩
        · exact Or.inr ⟨other, List.mem_cons_of_mem body hother, heq⟩

theorem mem_literalNames_of_references {source : List Char} {references : List String}
    (hreferences : Require.references source = .ok references) :
    ∀ reference ∈ references, reference ∈ literalNames source := by
  unfold Require.references at hreferences
  unfold literalNames
  cases hparts : lexemes source with
  | error unclosed =>
      rw [hparts] at hreferences
      cases hreferences
  | ok parts =>
      rw [hparts] at hreferences
      dsimp only at hreferences ⊢
      cases hfound : (calls (masked parts)).mapM (literalAt (literals parts)) with
      | error error =>
          rw [hfound] at hreferences
          cases hreferences
      | ok found =>
          rw [hfound] at hreferences
          cases hreferences
          intro reference hreference
          rcases mem_of_mem_collect hreference with hnil | ⟨body, hbody, rfl⟩
          · exact (List.not_mem_nil hnil).elim
          · exact List.mem_map_of_mem (mem_of_mapM_literalAt hfound body hbody)

end Rebuild.Require
