import Rebuild.Path.Extension
import Rebuild.Path.Location
import Rebuild.Proofs.FileTree.Files
import Rebuild.Proofs.Path.Canonical

/-!
# The characters of a path

A path text that is computed from others has their characters and no more, but for the slashes and
dots that every path may have.  So a character that is neither of these, nor a backslash, stays out
of all paths when it is in none of the texts at the start.
-/

namespace Rebuild

namespace Path

variable {c : CodePoint} {text directory extension : Text} {path first second : Path}

/-- A character other than those that writing a path puts in. -/
structure IsForeign (c : CodePoint) : Prop where
  slash : c ≠ .char '/'
  dot : c ≠ .char '.'

/-- What keeps a text from being a path is no character that writing a path puts in. -/
theorem isForeign_of_isBarred (hbarred : c.IsBarred) : IsForeign c := by
  cases c with
  | char c =>
      cases hbarred
      constructor <;> decide
  | half offset => constructor <;> nofun

theorem avoids_parse (htext : c ∉ text.toList) : (parse text).Avoids c :=
  fun _ hname hc =>
    htext ((slash_not_mem_of_mem_segments (Root.mem_reduce hname)).2 hc)

theorem not_mem_slashed (hforeign : IsForeign c) (htext : c ∉ text.toList) :
    c ∉ (slashed text).toList := by
  rw [toList_slashed, List.mem_map]
  rintro ⟨other, hother, heq⟩
  split at heq
  next => exact hforeign.slash heq.symm
  next => exact htext (heq ▸ hother)

theorem not_mem_canonical (hforeign : IsForeign c) (htext : c ∉ text.toList) :
    c ∉ (canonical text).toList :=
  not_mem_render hforeign.slash hforeign.dot (avoids_parse (not_mem_slashed hforeign htext))

theorem not_mem_join (hforeign : IsForeign c) (hdirectory : c ∉ directory.toList)
    (htext : c ∉ text.toList) : c ∉ (join directory text).toList := by
  apply not_mem_render hforeign.slash hforeign.dot
  exact avoids_append (avoids_parse (not_mem_slashed hforeign hdirectory))
    (avoids_parse (not_mem_slashed hforeign htext))

theorem mem_dropShared {names others : List Text} {name : Text}
    (hname : name ∈ (dropShared names others).2) : name ∈ others := by
  induction names generalizing others with
  | nil => exact hname
  | cons first rest ih =>
      cases others with
      | nil => exact hname
      | cons second more =>
          unfold dropShared at hname
          split at hname
          next => exact List.mem_cons_of_mem second (ih hname)
          next => exact hname

theorem avoids_between (hforeign : IsForeign c) (hsecond : second.Avoids c) :
    (first.between second).Avoids c := by
  intro name hname
  unfold between at hname
  rcases List.mem_append.1 hname with hup | hdown
  · obtain ⟨_, _, rfl⟩ := List.mem_map.1 hup
    simpa using hforeign.dot
  · exact hsecond name (mem_dropShared hdown)

theorem mem_of_mem_splitExtension {text : List CodePoint} (hc : c ∈ (splitExtension text).1) :
    c ∈ text := by
  unfold splitExtension at hc
  dsimp only at hc
  split at hc
  next before hbefore =>
    split at hc
    next => exact hc
    next =>
      have hdrop : c ∈ text.reverse.drop
          (text.reverse.takeWhile fun c => c != .char '.' && c != .char '/').length := by
        rw [hbefore]
        exact List.mem_cons_of_mem _ (List.mem_reverse.1 hc)
      exact List.mem_reverse.1 (List.mem_of_mem_drop hdrop)
  next => exact hc

theorem not_mem_withExtension (hforeign : IsForeign c) (htext : c ∉ text.toList)
    (hextension : c ∉ extension.toList) : c ∉ (withExtension text extension).toList := by
  have hcanonical := not_mem_canonical hforeign htext
  unfold withExtension
  dsimp only
  rw [Text.toList_append, Text.toList_ofList, List.mem_append, not_or]
  refine ⟨fun hc => hcanonical ?_, hextension⟩
  split at hc
  next => exact List.mem_of_mem_take hc
  next => exact mem_of_mem_splitExtension hc

/-- A path without empty names and dots. -/
def IsTidy (path : Path) : Prop :=
  ∀ name ∈ path.names, name ≠ "" ∧ name ≠ "." ∧ .char '/' ∉ name.toList

theorem IsNormal.isTidy (hpath : path.IsNormal) : path.IsTidy := fun name hname =>
  have hne := hpath.stack.ne_of_mem (List.mem_reverse.2 hname)
  ⟨hne.1, hne.2, hpath.slashFree name hname⟩

theorem isTidy_tidied (text : Text) : (tidied text).IsTidy := by
  intro name hname
  obtain ⟨hsegment, hne⟩ := List.mem_filter.1 hname
  rw [Bool.and_eq_true, bne_iff_ne, bne_iff_ne] at hne
  exact ⟨hne.1, hne.2, (slash_not_mem_of_mem_segments hsegment).1⟩

/-- A written path has no empty names and dots to leave out. -/
theorem tidied_render (hpath : path.IsTidy) : tidied path.render = path := by
  unfold render
  split
  next hdot =>
    obtain ⟨root, names⟩ := path
    obtain ⟨rfl, rfl⟩ := hdot
    decide +kernel
  next =>
    obtain ⟨count, hsegments⟩ :=
      exists_segments_eq path.root fun name hname => (hpath name hname).2.2
    have hnames :
        path.names.filter (fun name : Text => name != "" && name != ".") = path.names := by
      rw [List.filter_eq_self]
      intro name hname
      simpa using And.intro (hpath name hname).1 (hpath name hname).2.1
    unfold tidied
    rw [ofChars_written path.root fun name hname => ⟨(hpath name hname).1, (hpath name hname).2.2⟩,
      hsegments, List.filter_append, hnames]
    simp

theorem tidy_tidy (text : Text) : tidy (tidy text) = tidy text := by
  rw [tidy, tidy, tidied_render (isTidy_tidied text)]

theorem tidy_canonical (text : Text) : tidy (canonical text) = canonical text := by
  rw [canonical, tidy, tidied_render (isNormal_ofText text).isTidy]

end Path

namespace Location

variable {c : CodePoint} {here : Location} {text directory : Text}

theorem avoids_absolute (hhere : ∀ name ∈ here, c ∉ name.toList) (htext : c ∉ text.toList) :
    (here.absolute text).Avoids c :=
  Path.avoids_append hhere (Path.avoids_parse htext)

theorem not_mem_relativeTo (hforeign : Path.IsForeign c)
    (hhere : ∀ name ∈ here, c ∉ name.toList) (htext : c ∉ text.toList) :
    c ∉ (here.relativeTo text directory).toList := by
  apply Path.not_mem_canonical hforeign
  apply Path.not_mem_render hforeign.slash hforeign.dot
  exact Path.avoids_between hforeign (avoids_absolute hhere htext)

theorem not_mem_projectRelative (hforeign : Path.IsForeign c)
    (hhere : ∀ name ∈ here, c ∉ name.toList) (htext : c ∉ text.toList) :
    c ∉ (here.projectRelative text).toList := by
  unfold projectRelative
  split
  next => exact not_mem_relativeTo hforeign hhere htext
  next => exact Path.not_mem_canonical hforeign htext

theorem canonical_projectRelative (here : Location) (text : Text) :
    Path.canonical (here.projectRelative text) = here.projectRelative text := by
  unfold projectRelative
  split
  next => exact Path.canonical_canonical _
  next => exact Path.canonical_canonical _

end Location

end Rebuild
