import Rebuild.Proofs.Path.LastName

/-!
# Normal forms of paths

The names of a path are reduced by leaving out empty names and dots and by letting a `..` cancel the
name before it, or vanish at the root.  Every such step makes the list shorter and leaves the names
that reading comes to as they are, so in whatever order the steps are made, they end in these names.
Two texts therefore have one canonical text exactly when they agree in the slashes at the start and
in what their names reduce to, and the texts that no reading changes are those in normal form.
-/

namespace Rebuild

namespace Path

/-- A name is left out, or a `..` cancels the name before it or vanishes at the root. -/
inductive Cancels (rooted : Prop) : List Text → List Text → Prop
  | skip (before after : List Text) {name : Text} (hname : name = "" ∨ name = ".") :
      Cancels rooted (before ++ name :: after) (before ++ after)
  | up (before after : List Text) {name : Text} (hname : IsName name) :
      Cancels rooted (before ++ name :: ".." :: after) (before ++ after)
  | top (after : List Text) (hrooted : rooted) : Cancels rooted (".." :: after) after

/-- Steps lead from the names to the reduced ones, and none leads further. -/
def Reduces (rooted : Prop) (names reduced : List Text) : Prop :=
  Relation.ReflTransGen (Cancels rooted) names reduced ∧ ∀ further, ¬Cancels rooted reduced further

theorem length_lt_of_cancels {rooted : Prop} {names shorter : List Text}
    (hstep : Cancels rooted names shorter) : shorter.length < names.length := by
  cases hstep with
  | skip before after hname => simp
  | up before after hname =>
      simp only [List.length_append, List.length_cons]
      omega
  | top after hrooted => simp

theorem length_le_of_reflTransGen {rooted : Prop} {names shorter : List Text}
    (hsteps : Relation.ReflTransGen (Cancels rooted) names shorter) :
    shorter.length ≤ names.length := by
  induction hsteps with
  | refl => exact le_refl _
  | tail _ hstep ih => exact (length_lt_of_cancels hstep).le.trans ih

end Path

namespace Root

variable {root : Root} {names shorter reduced stack : List Text} {name : Text}

theorem reduce_eq_of_cancels (hstep : Path.Cancels (root ≠ .relative) names shorter) :
    root.reduce names = root.reduce shorter := by
  cases hstep with
  | skip before after hname => simp [reduce, push, hname]
  | up before after hname =>
      simp only [reduce, List.foldl_append, List.foldl_cons, push_of_isName hname]
      simp [push, hname.ne_up]
  | top after hrooted => simp [reduce, push, hrooted]

theorem reduce_append_empty (root : Root) (before after : List Text) :
    root.reduce (before ++ after) = root.reduce (before ++ ("" : Text) :: after) :=
  (reduce_eq_of_cancels (.skip before after (.inl rfl))).symm

theorem reduce_eq_of_reflTransGen
    (hsteps : Relation.ReflTransGen (Path.Cancels (root ≠ .relative)) names shorter) :
    root.reduce names = root.reduce shorter := by
  induction hsteps with
  | refl => rfl
  | tail _ hstep ih => exact ih.trans (reduce_eq_of_cancels hstep)

/-- Putting a name on the stack is one step, or none. -/
theorem reflTransGen_push (hstack : root.IsStack stack) (name : Text) (rest : List Text) :
    Relation.ReflTransGen (Path.Cancels (root ≠ .relative)) (stack.reverse ++ name :: rest)
      ((root.push stack name).reverse ++ rest) := by
  by_cases hskip : name = "" ∨ name = "."
  · have hpush : root.push stack name = stack := if_pos hskip
    rw [hpush]
    exact .single (.skip _ _ hskip)
  · by_cases hup : name = ".."
    · subst hup
      cases stack with
      | nil =>
          by_cases hroot : root = .relative
          · simp [push, hroot, Relation.ReflTransGen.refl]
          · have hpush : root.push [] ".." = [] := by simp [push, hroot]
            rw [hpush]
            exact .single (.top rest hroot)
      | cons top below =>
          by_cases htop : top = ".."
          · simp [push, htop, Relation.ReflTransGen.refl]
          · have hpush : root.push (top :: below) ".." = below := by simp [push, htop]
            rw [hpush, List.reverse_cons, List.append_assoc, List.singleton_append]
            exact .single (.up _ _ ⟨hstack.1.1, hstack.1.2, htop⟩)
    · rw [push_of_isName ⟨(not_or.1 hskip).1, (not_or.1 hskip).2, hup⟩]
      simp [Relation.ReflTransGen.refl]

theorem reflTransGen_foldl_push (hstack : root.IsStack stack) (names : List Text) :
    Relation.ReflTransGen (Path.Cancels (root ≠ .relative)) (stack.reverse ++ names)
      (names.foldl root.push stack).reverse := by
  induction names generalizing stack with
  | nil => simp [Relation.ReflTransGen.refl]
  | cons name rest ih => exact (reflTransGen_push hstack name rest).trans (ih (hstack.push name))

theorem reflTransGen_reduce (root : Root) (names : List Text) :
    Relation.ReflTransGen (Path.Cancels (root ≠ .relative)) names (root.reduce names) := by
  have hempty : root.IsStack [] := trivial
  simpa [reduce] using reflTransGen_foldl_push hempty names

theorem not_cancels_reduce (names further : List Text) :
    ¬Path.Cancels (root ≠ .relative) (root.reduce names) further := by
  intro hstep
  have hsame : root.reduce further = root.reduce names := by
    rw [← reduce_eq_of_cancels hstep, (root.isStack_reverse_reduce names).reduce_eq_self]
  have hle := Path.length_le_of_reflTransGen (root.reflTransGen_reduce further)
  have hlt := Path.length_lt_of_cancels hstep
  rw [hsame] at hle
  omega

/-- The names that reading comes to are the only ones that steps can end in. -/
theorem reduces_iff :
    Path.Reduces (root ≠ .relative) names reduced ↔ root.reduce names = reduced := by
  constructor
  · rintro ⟨hsteps, hlast⟩
    rw [reduce_eq_of_reflTransGen hsteps]
    rcases (root.reflTransGen_reduce reduced).cases_head with hsame | ⟨further, hstep, -⟩
    · exact hsame.symm
    · exact (hlast further hstep).elim
  · rintro rfl
    exact ⟨root.reflTransGen_reduce names, not_cancels_reduce names⟩

theorem isStack_append_replicate {proper : List Text} {count : Nat}
    (hproper : ∀ name ∈ proper, Path.IsName name) (hcount : root ≠ .relative → count = 0) :
    root.IsStack (proper ++ List.replicate count (".." : Text)) := by
  induction proper with
  | nil =>
      induction count with
      | zero => exact trivial
      | succ count ih =>
          have hroot : root = .relative := by
            by_contra hrooted
            exact absurd (hcount hrooted) (Nat.succ_ne_zero count)
          refine ⟨⟨by decide, by decide⟩, fun _ => ⟨hroot, ?_⟩, ih fun hrooted => ?_⟩
          · intro name hname
            exact List.eq_of_mem_replicate hname
          · exact (hrooted hroot).elim
  | cons name rest ih =>
      have hname := hproper name List.mem_cons_self
      refine ⟨⟨hname.ne_empty, hname.ne_dot⟩, fun hup => (hname.ne_up hup).elim, ?_⟩
      exact ih fun other hother => hproper other (List.mem_cons_of_mem name hother)

/-! ## The slashes at the start -/

def slashes : Root → Nat
  | .relative => 0
  | .single => 1
  | .double => 2

theorem slashes_inj {first second : Root} : first.slashes = second.slashes ↔ first = second := by
  cases first <;> cases second <;> simp [slashes]

theorem takeWhile_slash_eq_nil {chars : List CodePoint}
    (hchars : ∀ rest, chars ≠ .char '/' :: rest) :
    chars.takeWhile (· == .char '/') = [] := by
  cases chars with
  | nil => rfl
  | cons c rest =>
      have hc : c ≠ .char '/' := fun heq => hchars rest (by rw [heq])
      simp [hc]

theorem slashes_ofChars_eq (chars : List CodePoint) :
    (ofChars chars).slashes =
      if (chars.takeWhile (· == .char '/')).length < 3 then
        (chars.takeWhile (· == .char '/')).length
      else 1 := by
  unfold ofChars
  split
  next => simp [slashes]
  next rest hrest => simp [slashes, takeWhile_slash_eq_nil hrest]
  next rest _ hrest => simp [slashes, takeWhile_slash_eq_nil hrest]
  next hchars => simp [slashes, takeWhile_slash_eq_nil hchars]

/-- What follows does not change the root unless slashes follow nothing but slashes. -/
theorem ofChars_append {chars rest : List CodePoint} (hsome : chars ≠ [])
    (hends : chars.getLast? ≠ some (.char '/') ∨ rest.head? ≠ some (.char '/')) :
    ofChars (chars ++ rest) = ofChars chars := by
  have htake : (chars ++ rest).takeWhile (· == .char '/') = chars.takeWhile (· == .char '/') := by
    rw [List.takeWhile_append]
    split
    next hlength =>
      have hall : chars.takeWhile (· == .char '/') = chars :=
        (List.takeWhile_prefix (· == CodePoint.char '/')).eq_of_length hlength
      rcases hends with hlast | hhead
      · have hslash := List.takeWhile_eq_self_iff.1 hall _ (List.getLast_mem hsome)
        rw [List.getLast?_eq_some_getLast hsome, beq_iff_eq.1 hslash] at hlast
        exact (hlast rfl).elim
      · have hrest : ∀ more, rest ≠ .char '/' :: more := fun more heq => hhead (by rw [heq]; rfl)
        rw [hall, takeWhile_slash_eq_nil hrest, List.append_nil]
    next => rfl
  rw [← slashes_inj, slashes_ofChars_eq, slashes_ofChars_eq, htake]

theorem slashes_ne_zero : root.slashes ≠ 0 ↔ root ≠ .relative := by
  cases root <;> simp [slashes]

end Root

namespace Path

variable {text first second : Text} {path : Path} {names : List Text}

def leadingSlashes (text : Text) : Nat :=
  (text.toList.takeWhile (· == .char '/')).length

/-- Three slashes or more count as one. -/
def rootSlashes (text : Text) : Nat :=
  if leadingSlashes text < 3 then leadingSlashes text else 1

theorem slashes_ofChars (text : Text) :
    (Root.ofChars text.toList).slashes = rootSlashes text :=
  Root.slashes_ofChars_eq text.toList

theorem reduces_segments_iff :
    Reduces (rootSlashes text ≠ 0) (segments text) names ↔ (parse text).names = names := by
  rw [← slashes_ofChars, propext Root.slashes_ne_zero, Root.reduces_iff]
  rfl

theorem eq_iff_root_names {first second : Path} :
    first = second ↔ first.root = second.root ∧ first.names = second.names := by
  cases first
  cases second
  simp

theorem parse_eq_iff :
    parse first = parse second ↔ rootSlashes first = rootSlashes second ∧ ∃ names,
      Reduces (rootSlashes first ≠ 0) (segments first) names ∧
        Reduces (rootSlashes second ≠ 0) (segments second) names := by
  have hroots : (parse first).root = (parse second).root ↔
      rootSlashes first = rootSlashes second := by
    rw [← slashes_ofChars, ← slashes_ofChars, Root.slashes_inj]
    rfl
  rw [eq_iff_root_names, hroots]
  simp only [reduces_segments_iff, exists_eq_left']
  rw [eq_comm (a := (parse first).names)]

theorem canonical_eq_canonical_iff :
    canonical first = canonical second ↔ ofText first = ofText second := by
  constructor
  · intro hsame
    rw [← ofText_canonical first, hsame, ofText_canonical]
  · intro hsame
    rw [canonical, hsame, canonical]

/-! ## Texts in normal form -/

/-- The names between the slashes, behind those at the start. -/
def namesBehind (text : Text) : List Text :=
  ((text.toList.dropWhile (· == .char '/')).splitOn (.char '/')).map Text.ofList

/-- The normal form of a path text. -/
structure IsCanonical (text : Text) : Prop where
  backslashFree : .char '\\' ∉ text.toList
  leading : leadingSlashes text ≤ 2
  names : text ∈ ([".", "/", "//"] : List Text) ∨ ∀ name ∈ namesBehind text, name ≠ "" ∧ name ≠ "."
  trailing : text ∈ (["/", "//"] : List Text) ∨ text.toList.getLast? ≠ some (.char '/')
  ups : ∃ count rest, namesBehind text = List.replicate count (".." : Text) ++ rest ∧
    (".." : Text) ∉ rest ∧ (leadingSlashes text ≠ 0 → count = 0)

theorem render_of_ne_nil (hnames : path.names ≠ []) :
    path.render = path.root.text ++ Text.intercalate "/" path.names :=
  if_neg fun hdot => hnames hdot.2

theorem toList_render (hnames : path.names ≠ []) :
    path.render.toList = path.root.text.toList ++ joined path.names := by
  rw [render_of_ne_nil hnames]
  simp [joined]

theorem toList_text (root : Root) : root.text.toList = List.replicate root.slashes (.char '/') := by
  cases root <;> rfl

/-- The slashes at the start of a written path are those of its root. -/
theorem span_render (hpath : path.IsNormal) (hnames : path.names ≠ []) :
    path.render.toList.takeWhile (· == .char '/') = List.replicate path.root.slashes (.char '/') ∧
      path.render.toList.dropWhile (· == .char '/') = joined path.names := by
  have hhead := head?_joined_ne_slash hpath.proper
  have hslashes : ∀ c ∈ List.replicate path.root.slashes (CodePoint.char '/'),
      (c == .char '/') = true := by
    intro c hc
    simp [List.eq_of_mem_replicate hc]
  rw [toList_render hnames, toList_text, List.takeWhile_append_of_pos hslashes,
    List.dropWhile_append_of_pos hslashes]
  cases hjoined : joined path.names with
  | nil => simp
  | cons c rest =>
      rw [hjoined] at hhead
      have hc : c ≠ .char '/' := by simpa using hhead
      simp [hc]

theorem leadingSlashes_render (hpath : path.IsNormal) (hnames : path.names ≠ []) :
    leadingSlashes path.render = path.root.slashes := by
  rw [leadingSlashes, (span_render hpath hnames).1, List.length_replicate]

theorem namesBehind_render (hpath : path.IsNormal) (hnames : path.names ≠ []) :
    namesBehind path.render = path.names := by
  rw [namesBehind, (span_render hpath hnames).2, joined, List.splitOn_intercalate]
  · simp [Function.comp_def]
  · intro part hpart
    obtain ⟨name, hname, rfl⟩ := List.mem_map.1 hpart
    exact hpath.slashFree name hname
  · simpa using hnames

theorem isCanonical_special (htext : text ∈ ([".", "/", "//"] : List Text)) : IsCanonical text := by
  have hall : ∀ special ∈ ([".", "/", "//"] : List Text),
      .char '\\' ∉ special.toList ∧ leadingSlashes special ≤ 2 ∧
      (special ∈ (["/", "//"] : List Text) ∨ special.toList.getLast? ≠ some (.char '/')) ∧
      (".." : Text) ∉ namesBehind special := by
    decide +kernel
  obtain ⟨hback, hleading, htrailing, hups⟩ := hall text htext
  exact ⟨hback, hleading, .inl htext, htrailing, 0, namesBehind text, rfl, hups, fun _ => rfl⟩

theorem getLast?_render (hpath : path.IsNormal) (hnames : path.names ≠ []) :
    path.render.toList.getLast? ≠ some (.char '/') := by
  obtain ⟨root, names⟩ := path
  obtain ⟨init, last, rfl⟩ := (List.eq_nil_or_concat' names).resolve_left hnames
  obtain ⟨hempty, hslash⟩ := hpath.proper last (by simp)
  have hchars : last.toList ≠ [] := by simpa using hempty
  rw [toList_render_concat, List.getLast?_append_of_ne_nil _ hchars]
  intro hlast
  exact hslash (List.mem_of_getLast? hlast)

/-- What is written for a path is in normal form. -/
theorem isCanonical_render (hpath : path.IsNormal) (hback : path.BackslashFree) :
    IsCanonical path.render := by
  by_cases hnames : path.names = []
  · apply isCanonical_special
    rw [render, hnames]
    cases path.root <;> simp [Root.text]
  · have hleading := leadingSlashes_render hpath hnames
    have hbehind := namesBehind_render hpath hnames
    obtain ⟨proper, count, hstack, hproper⟩ := hpath.stack.exists_ups
    have hsplit : path.names = List.replicate count (".." : Text) ++ proper.reverse := by
      rw [← List.reverse_reverse path.names, hstack, List.reverse_append, List.reverse_replicate]
    constructor
    · exact backslash_not_mem_render hback
    · rw [hleading]
      cases path.root <;> simp [Root.slashes]
    · rw [hbehind]
      exact .inr fun name hname => hpath.stack.ne_of_mem (List.mem_reverse.2 hname)
    · exact .inr (getLast?_render hpath hnames)
    · refine ⟨count, proper.reverse, hbehind.trans hsplit, fun hup => ?_, fun hrooted => ?_⟩
      · exact (hproper ".." (List.mem_reverse.1 hup)).ne_up rfl
      · rw [hleading, Root.slashes_ne_zero] at hrooted
        by_contra hcount
        have hup : (".." : Text) ∈ path.names.reverse := by simp [hsplit, hcount]
        exact (hpath.stack.isName hrooted ".." hup).ne_up rfl

theorem isNormal_of_isCanonical (htext : IsCanonical text)
    (hnames : ∀ name ∈ namesBehind text, name ≠ "" ∧ name ≠ ".") :
    (Path.mk (Root.ofChars text.toList) (namesBehind text)).IsNormal := by
  obtain ⟨count, rest, hsplit, hrest, hcount⟩ := htext.ups
  have hleading := htext.leading
  constructor
  · have hproper : ∀ name ∈ rest.reverse, IsName name := by
      intro name hname
      have hmem := List.mem_reverse.1 hname
      obtain ⟨hempty, hdot⟩ := hnames name (by simp [hsplit, hmem])
      exact ⟨hempty, hdot, fun hup => hrest (hup ▸ hmem)⟩
    dsimp only
    rw [hsplit, List.reverse_append, List.reverse_replicate]
    apply Root.isStack_append_replicate hproper
    intro hrooted
    rw [← Root.slashes_ne_zero, slashes_ofChars, rootSlashes] at hrooted
    apply hcount
    rwa [if_pos (by omega)] at hrooted
  · intro name hname
    obtain ⟨part, hpart, rfl⟩ := List.mem_map.1 hname
    rw [Text.toList_ofList]
    exact (separator_not_mem_of_mem_splitOn hpart).1

/-- The canonical texts are those in normal form. -/
theorem canonical_eq_self_iff : canonical text = text ↔ IsCanonical text := by
  constructor
  · intro htext
    rw [← htext]
    exact isCanonical_render (isNormal_ofText text) (backslashFree_ofText text)
  · intro htext
    rcases htext.names with hspecial | hnames
    · have hall : ∀ special ∈ ([".", "/", "//"] : List Text), canonical special = special := by
        decide +kernel
      exact hall text hspecial
    · have hpath := isNormal_of_isCanonical htext hnames
      have hsome : namesBehind text ≠ [] := by
        simp [namesBehind, List.splitOn_ne_nil]
      have hslashes : text.toList.takeWhile (· == .char '/') =
          List.replicate (Root.ofChars text.toList).slashes (.char '/') := by
        have hleading := htext.leading
        rw [slashes_ofChars, rootSlashes, if_pos (by omega), List.eq_replicate_iff]
        exact ⟨rfl, fun c hc => by simpa using List.mem_takeWhile_imp hc⟩
      have hjoined : text.toList.dropWhile (· == .char '/') = joined (namesBehind text) := by
        rw [joined, namesBehind, List.map_map]
        simp [Function.comp_def]
      have hwritten : (Path.mk (Root.ofChars text.toList) (namesBehind text)).render = text := by
        rw [← Text.toList_inj, toList_render hsome, toList_text, ← hslashes, ← hjoined,
          List.takeWhile_append_dropWhile]
      rw [canonical, ← parse_eq_ofText htext.backslashFree]
      conv_lhs => rw [← hwritten, parse_render hpath, hwritten]

/-! ## Joining -/

/-- The text of one path behind that of another, with a slash between them where there is none; a
text that begins with a slash stands alone. -/
def glued (first second : Text) : Text :=
  if second.toList.head? = some (.char '/') then second
  else if first = "" ∨ first.toList.getLast? = some (.char '/') then first ++ second
  else first ++ "/" ++ second

theorem root_parse_eq_relative_iff :
    (parse text).root = .relative ↔ text.toList.head? ≠ some (.char '/') := by
  change Root.ofChars text.toList = .relative ↔ _
  cases text.toList with
  | nil => simp [Root.ofChars]
  | cons c rest =>
      by_cases hc : c = .char '/'
      · subst hc
        rw [← not_iff_not, ← ne_eq, ← Root.slashes_ne_zero, Root.slashes_ofChars_eq]
        split <;> simp
      · simp [Root.ofChars, hc]

/-- Joined texts that have the names of both are read as one path behind the other. -/
theorem parse_append_of_segments {whole : Text} (hsecond : (parse second).root = .relative)
    (hroot : (parse whole).root = (parse first).root)
    (hnames : ∀ root : Root, root.reduce (segments whole) =
      root.reduce (segments first ++ segments second)) :
    parse whole = parse first ++ parse second := by
  have hfirst : (parse first).names = (parse first).root.reduce (segments first) := rfl
  have hlast : (parse second).names = Root.relative.reduce (segments second) := by
    rw [← hsecond]
    rfl
  rw [append_of_relative hsecond, hfirst, hlast, Root.reduce_append_reduce,
    Root.reduce_reduce_append, ← hnames, ← hroot]
  rfl

/-- Behind a slash at the end no empty name is left that counts. -/
theorem reduce_segments_append (hlast : first.toList.getLast? = some (.char '/')) (root : Root) :
    root.reduce (segments (first ++ second)) = root.reduce (segments first ++ segments second) := by
  obtain ⟨init, hinit⟩ := List.getLast?_eq_some_iff.1 hlast
  have hfirst : first = Text.ofList init ++ "/" ++ "" := by
    rw [← Text.toList_inj, hinit]
    simp
  have hwhole : first ++ second = Text.ofList init ++ "/" ++ second := by
    rw [hfirst, Text.append_empty]
  have hempty : segments "" = [("" : Text)] := segments_eq_singleton (by simp)
  rw [hwhole, hfirst, segments_append_slash, segments_append_slash, hempty, List.append_assoc,
    root.reduce_append_empty, List.singleton_append]

theorem parse_glued (first second : Text) :
    parse (glued first second) = parse first ++ parse second := by
  unfold glued
  split
  next hslash =>
    refine (append_of_rooted fun hrelative => ?_).symm
    exact root_parse_eq_relative_iff.1 hrelative hslash
  next hslash =>
    have hsecond := root_parse_eq_relative_iff.2 hslash
    split
    next hends =>
      rcases hends with rfl | hlast
      · rw [Text.empty_append]
        exact parse_append_of_segments hsecond hsecond fun root => root.reduce_append_empty [] _
      · apply parse_append_of_segments hsecond _ (reduce_segments_append hlast)
        have hsome : first.toList ≠ [] := by
          intro hnil
          simp [hnil] at hlast
        change Root.ofChars (first ++ second).toList = Root.ofChars first.toList
        rw [Text.toList_append, Root.ofChars_append hsome (.inr hslash)]
    next hends =>
      obtain ⟨hsome, hlast⟩ := not_or.1 hends
      apply parse_append_of_segments hsecond
      · change Root.ofChars (first ++ "/" ++ second).toList = Root.ofChars first.toList
        rw [Text.append_assoc, Text.toList_append,
          Root.ofChars_append (by simpa using hsome) (.inl hlast)]
      · intro root
        rw [segments_append_slash]

theorem backslash_not_mem_glued (hfirst : .char '\\' ∉ first.toList)
    (hsecond : .char '\\' ∉ second.toList) :
    .char '\\' ∉ (glued first second).toList := by
  unfold glued
  split
  next => exact hsecond
  next =>
    split
    next => simp [hfirst, hsecond]
    next => simp [hfirst, hsecond]

theorem join_eq_canonical_glued (first second : Text) :
    join first second = canonical (glued (slashed first) (slashed second)) := by
  have hback := backslash_not_mem_glued (backslash_not_mem_slashed first)
    (backslash_not_mem_slashed second)
  rw [canonical, ← parse_eq_ofText hback, parse_glued]
  rfl

theorem existsUnique_reduces (rooted : Prop) (names : List Text) :
    ∃! reduced, Reduces rooted names reduced := by
  obtain ⟨root, rfl⟩ : ∃ root : Root, rooted = (root ≠ .relative) := by
    by_cases hrooted : rooted
    · exact ⟨.single, by simp [hrooted]⟩
    · exact ⟨.relative, by simp [hrooted]⟩
  exact ⟨root.reduce names, Root.reduces_iff.2 rfl, fun other hother =>
    (Root.reduces_iff.1 hother).symm⟩

/-- Canonical texts are the texts in normal form.  Two texts have the same one exactly when they
agree in the slashes at the start and in the only list to which the names between their slashes
reduce; and paths may be brought to this form before they are joined or after. -/
theorem canonical_exact :
    (∀ text, IsCanonical (canonical text) ∧ canonical (canonical text) = canonical text ∧
      (canonical text = text ↔ IsCanonical text)) ∧
    (∀ rooted names, ∃! reduced, Reduces rooted names reduced) ∧
    (∀ first second, canonical first = canonical second ↔
      rootSlashes (slashed first) = rootSlashes (slashed second) ∧ ∃ names,
        Reduces (rootSlashes (slashed first) ≠ 0) (segments (slashed first)) names ∧
          Reduces (rootSlashes (slashed second) ≠ 0) (segments (slashed second)) names) ∧
    ∀ first second, join first second = canonical (glued (slashed first) (slashed second)) ∧
      join first second = join (canonical first) (canonical second) := by
  refine ⟨fun text => ?_, existsUnique_reduces, fun first second => ?_, fun first second => ?_⟩
  · exact ⟨canonical_eq_self_iff.1 (canonical_canonical text), canonical_canonical text,
      canonical_eq_self_iff⟩
  · rw [canonical_eq_canonical_iff]
    exact parse_eq_iff
  · refine ⟨join_eq_canonical_glued first second, ?_⟩
    rw [join, join, ofText_canonical, ofText_canonical]

end Path

end Rebuild
