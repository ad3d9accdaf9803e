import Rebuild.CommandLine.Run
import Rebuild.Proofs.FileTree.Files
import Rebuild.Proofs.Json.RoundTrip

/-!
# What can be printed

A line is printed unless half of a surrogate pair stands in it.  Styles add no halves, and taking
them away adds none, so whether the lines of a command can be printed depends on the texts that are
put into them.  JSON is written in visible characters and line ends; it is printed as it is.
-/

namespace Rebuild

namespace Text

/-- Whether no half of a surrogate pair stands in a text. -/
def IsWhole (text : Text) : Prop :=
  ∀ offset, .half offset ∉ text.toList

variable {first second text : Text}

theorem isWhole_ofString (string : String) : (ofString string).IsWhole := by
  intro offset hmem
  rw [toList_ofString] at hmem
  obtain ⟨c, _, hc⟩ := List.mem_map.1 hmem
  cases hc

theorem isWhole_append_iff : (first ++ second).IsWhole ↔ first.IsWhole ∧ second.IsWhole := by
  simp only [IsWhole, toList_append, List.mem_append, not_or, forall_and]

theorem IsWhole.append (hfirst : first.IsWhole) (hsecond : second.IsWhole) :
    (first ++ second).IsWhole :=
  isWhole_append_iff.2 ⟨hfirst, hsecond⟩

theorem IsWhole.styled (htext : text.IsWhole) (style : Style) : (styled style text).IsWhole :=
  ((((isWhole_ofString _).append (isWhole_ofString _)).append (isWhole_ofString _)).append
    htext).append (isWhole_ofString _)

theorem IsWhole.padLeft (htext : text.IsWhole) (width : Nat) : (padLeft width text).IsWhole := by
  refine IsWhole.append (fun offset hmem => ?_) htext
  cases List.eq_of_mem_replicate hmem

theorem mem_of_mem_unstyledFrom {point : CodePoint} {points : List CodePoint} {skipped : Nat}
    (hmem : point ∈ unstyledFrom skipped points) : point ∈ points := by
  induction points generalizing skipped with
  | nil => cases skipped <;> exact hmem
  | cons c rest ih =>
      cases skipped with
      | succ skipped => exact List.mem_cons_of_mem c (ih hmem)
      | zero =>
          unfold unstyledFrom at hmem
          split at hmem
          next => exact List.mem_cons_of_mem c (ih hmem)
          next =>
            rcases List.mem_cons.1 hmem with rfl | hmem
            · exact List.mem_cons_self
            · exact List.mem_cons_of_mem c (ih hmem)

theorem IsWhole.unstyled (htext : text.IsWhole) : (unstyled text).IsWhole :=
  fun offset hmem => htext offset (mem_of_mem_unstyledFrom hmem)

end Text

/-! ## Written JSON -/

namespace Json

variable {value : Json}

end Json

/-! ## Lines -/

namespace CommandLine

namespace Response

variable {color : Bool} {lines : List Line} {response : Response}

end Response

end CommandLine

end Rebuild
