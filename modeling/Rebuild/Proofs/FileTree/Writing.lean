import Rebuild.Proofs.FileTree.Descent

/-!
# What writing leaves alone

Writing a file puts it at its place and creates the folders that are missing on the way.  What
stands elsewhere stays: a file as it is, a folder with its time, though there may be more in it.
And no file can be found that was not there before, but for the one that was written.
-/

namespace Rebuild

/-- What an entry is after files have been written elsewhere. -/
def Entry.Keeps : Entry → Entry → Prop
  | .file data, now => now = .file data
  | .folder modified _, now => ∃ inner, now = .folder modified inner

theorem Entry.Keeps.refl (entry : Entry) : entry.Keeps entry := by
  cases entry with
  | file => rfl
  | folder modified inner => exact ⟨inner, rfl⟩

theorem Entry.Keeps.trans {first second third : Entry} (hfirst : first.Keeps second)
    (hsecond : second.Keeps third) : first.Keeps third := by
  cases first with
  | file =>
      cases hfirst
      exact hsecond
  | folder =>
      obtain ⟨inner, rfl⟩ := hfirst
      exact hsecond

namespace Folder

variable {tree : Folder} {name other : Text} {entry : Entry} {names : List Text} {data : File}

theorem find?_add : (tree.add name entry).find? other =
    if name = other then some entry else tree.find? other := by
  cases entry <;> rfl

theorem find?_put : (tree.put name entry).find? other =
    if name = other then some entry else tree.find? other := by
  induction tree with
  | empty => exact find?_add
  | file old oldData rest ih =>
      unfold put
      split
      next heq =>
        rw [find?_add, find?, heq]
        split <;> rfl
      next hne =>
        rw [find?, ih, find?]
        grind
  | folder old oldModified oldInner rest _ ih =>
      unfold put
      split
      next heq =>
        rw [find?_add, find?, heq]
        split <;> rfl
      next hne =>
        rw [find?, ih, find?]
        grind

theorem mem_files_add (hmem : (names, data) ∈ (tree.add name entry).files) :
    (names, data) ∈ tree.files ∨ ∃ rest, names = name :: rest ∧ (rest, data) ∈ entry.files := by
  cases entry with
  | file =>
      rcases List.mem_cons.1 hmem with heq | hmem
      · cases heq
        exact .inr ⟨[], rfl, List.mem_singleton_self _⟩
      · exact .inl hmem
  | folder =>
      rcases List.mem_append.1 hmem with hmem | hmem
      · obtain ⟨found, hfound, heq⟩ := List.mem_map.1 hmem
        cases heq
        exact .inr ⟨found.1, rfl, hfound⟩
      · exact .inl hmem

theorem mem_files_put (hmem : (names, data) ∈ (tree.put name entry).files) :
    (names, data) ∈ tree.files ∨ ∃ rest, names = name :: rest ∧ (rest, data) ∈ entry.files := by
  induction tree with
  | empty => exact mem_files_add hmem
  | file old oldData rest ih =>
      unfold put at hmem
      split at hmem
      next => exact (mem_files_add hmem).imp_left (List.mem_cons_of_mem _)
      next =>
        rcases List.mem_cons.1 hmem with heq | hmem
        · exact .inl (List.mem_cons.2 (.inl heq))
        · exact (ih hmem).imp_left (List.mem_cons_of_mem _)
  | folder old oldModified oldInner rest _ ih =>
      unfold put at hmem
      split at hmem
      next => exact (mem_files_add hmem).imp_left (List.mem_append_right _)
      next =>
        rcases List.mem_append.1 hmem with hmem | hmem
        · exact .inl (List.mem_append_left _ hmem)
        · exact (ih hmem).imp_left (List.mem_append_right _)

end Folder

/-! ## Putting an entry at a place -/

namespace Entry

variable {old : Option Entry} {created : Timestamp} {entry now before : Entry}
  {name other : Text} {names others rest : List Text} {data : File}

/-- What names lead to from an entry that need not be there. -/
def reach (old : Option Entry) (names : List Text) : Except PathFault Entry :=
  match old with
  | none => .error .missing
  | some entry => entry.descend names

/-- Nothing is there yet, or a file. -/
def IsFree (old : Option Entry) (names : List Text) : Prop :=
  reach old names = .error .missing ∨ ∃ data, reach old names = .ok (.file data)

/-- The folder that an entry is, or a new one. -/
def opened (created : Timestamp) : Option Entry → Timestamp × Folder
  | some (.folder modified inner) => (modified, inner)
  | _ => (created, .empty)

/-- What an entry becomes when another one is put where the names lead. -/
def place (created : Timestamp) (entry : Entry) : List Text → Option Entry → Entry
  | [], _ => entry
  | name :: names, old =>
    .folder (opened created old).1
      ((opened created old).2.put name
        (place created entry names ((opened created old).2.find? name)))

theorem folder_putAt {modified : Timestamp} {tree : Folder} (hnames : names ≠ []) :
    Entry.folder modified (tree.putAt created entry names) =
      place created entry names (some (.folder modified tree)) := by
  induction names generalizing modified tree with
  | nil => exact (hnames rfl).elim
  | cons name more ih =>
      cases more with
      | nil => rfl
      | cons second further =>
          have hmore {modified : Timestamp} {tree : Folder} :
              Entry.folder modified (tree.putAt created entry (second :: further)) =
                place created entry (second :: further) (some (.folder modified tree)) :=
            ih (List.cons_ne_nil second further)
          rw [place, Folder.putAt]
          · cases hfind : tree.find? name with
            | none => simp [opened, hfind, hmore, place, Folder.find?]
            | some found =>
                cases found with
                | file => simp [opened, hfind, hmore, place, Folder.find?]
                | folder => simp [opened, hfind, hmore]
          · exact List.cons_ne_nil second further

theorem descend_nil (entry : Entry) : entry.descend [] = .ok entry := by
  cases entry <;> rfl

theorem eq_some_of_reach_nil (hreach : reach old [] = .ok before) : old = some before := by
  cases old with
  | none => cases hreach
  | some found => rw [← Except.ok.inj ((descend_nil found).symm.trans hreach)]

theorem descend_folder_cons {modified : Timestamp} {inner : Folder} :
    (Entry.folder modified inner).descend (name :: names) = reach (inner.find? name) names := by
  rw [descend]
  cases inner.find? name <;> rfl

theorem reach_cons (hfree : IsFree old (name :: names)) :
    reach old (other :: others) = reach ((opened created old).2.find? other) others := by
  cases old with
  | none => rfl
  | some found =>
      cases found with
      | file =>
          rcases hfree with hfree | ⟨_, hfree⟩
          · cases hfree
          · cases hfree
      | folder modified inner =>
          change (Entry.folder modified inner).descend (other :: others) = _
          exact descend_folder_cons

theorem IsFree.tail (hfree : IsFree old (name :: names)) :
    IsFree ((opened created old).2.find? name) names := by
  unfold IsFree
  rw [← reach_cons hfree]
  exact hfree

theorem descend_place_cons :
    (place created entry (name :: names) old).descend (other :: others) =
      if name = other then
        (place created entry names ((opened created old).2.find? name)).descend others
      else reach ((opened created old).2.find? other) others := by
  rw [place, descend_folder_cons, Folder.find?_put]
  split <;> rfl

theorem descend_place_self : (place created entry names old).descend names = .ok entry := by
  induction names generalizing old with
  | nil => exact descend_nil entry
  | cons name rest ih => rw [descend_place_cons, if_pos rfl, ih]

/-- What stands elsewhere is kept. -/
theorem exists_keeps_place (hfree : IsFree old names) (hne : others ≠ names)
    (hbefore : reach old others = .ok before) :
    ∃ now, (place created entry names old).descend others = .ok now ∧ before.Keeps now := by
  induction names generalizing old others with
  | nil =>
      -- there is nothing below a file, or below what is missing
      cases others with
      | nil => exact (hne rfl).elim
      | cons other rest =>
          rcases hfree with hfree | ⟨data, hfree⟩
          · cases old with
            | none => cases hbefore
            | some found => cases found <;> cases hfree
          · cases old with
            | none => cases hbefore
            | some found =>
                cases found with
                | file => cases hbefore
                | folder => cases hfree
  | cons name names ih =>
      cases others with
      | nil =>
          cases old with
          | none => cases hbefore
          | some found =>
              cases found with
              | file =>
                  rcases hfree with hfree | ⟨_, hfree⟩
                  · cases hfree
                  · cases hfree
              | folder modified inner =>
                  cases hbefore
                  exact ⟨_, rfl, _, rfl⟩
      | cons other rest =>
          rw [reach_cons hfree] at hbefore
          rw [descend_place_cons]
          split
          next heq =>
            subst heq
            exact ih hfree.tail (fun h => hne (congrArg _ h)) hbefore
          next => exact ⟨before, hbefore, .refl before⟩

theorem mem_files_of_descend (hdescend : before.descend names = .ok now)
    (hmem : (rest, data) ∈ now.files) : (names ++ rest, data) ∈ before.files := by
  induction names generalizing before with
  | nil =>
      rw [descend_nil] at hdescend
      cases hdescend
      exact hmem
  | cons name more ih =>
      cases before with
      | file => cases hdescend
      | folder modified inner =>
          rw [descend_folder_cons] at hdescend
          cases hfind : inner.find? name with
          | none =>
              rw [hfind] at hdescend
              cases hdescend
          | some found =>
              rw [hfind] at hdescend
              exact Folder.mem_files_of_find? hfind (ih hdescend)

theorem exists_of_mem_files_opened (hmem : (rest, data) ∈ (opened created old).2.files) :
    ∃ before, reach old [] = .ok before ∧ (rest, data) ∈ before.files := by
  cases old with
  | none => cases hmem
  | some found =>
      cases found with
      | file => cases hmem
      | folder modified inner => exact ⟨.folder modified inner, rfl, hmem⟩

/-- A file that is found belongs to the new entry, or was there before. -/
theorem mem_files_of_place (hfree : IsFree old names)
    (hnow : (place created entry names old).descend others = .ok now)
    (hmem : (rest, data) ∈ now.files) :
    (∃ more, (more, data) ∈ entry.files ∧ others ++ rest = names ++ more) ∨
      ∃ before, reach old others = .ok before ∧ (rest, data) ∈ before.files := by
  induction names generalizing old others rest now with
  | nil => exact .inl ⟨others ++ rest, mem_files_of_descend hnow hmem, rfl⟩
  | cons name names ih =>
      cases others with
      | nil =>
          cases hnow
          rcases Folder.mem_files_put hmem with hold | ⟨inside, rfl, hinside⟩
          · exact .inr (exists_of_mem_files_opened hold)
          · have hself :=
              descend_nil (place created entry names ((opened created old).2.find? name))
            rcases ih hfree.tail hself hinside with ⟨more, hmore, hnames⟩ | ⟨before, hbefore, hfile⟩
            · exact .inl ⟨more, hmore, congrArg (name :: ·) hnames⟩
            · have hfind := eq_some_of_reach_nil hbefore
              exact .inr (exists_of_mem_files_opened (Folder.mem_files_of_find? hfind hfile))
      | cons other others =>
          rw [descend_place_cons] at hnow
          split at hnow
          next heq =>
            subst heq
            rcases ih hfree.tail hnow hmem with ⟨more, hmore, hnames⟩ | ⟨before, hbefore, hfile⟩
            · exact .inl ⟨more, hmore, congrArg (name :: ·) hnames⟩
            · exact .inr ⟨before, (reach_cons hfree).trans hbefore, hfile⟩
          next => exact .inr ⟨now, (reach_cons hfree).trans hnow, hmem⟩

end Entry

/-! ## Written files -/

theorem exists_of_foldlM_cons {ε σ α : Type} {step : σ → α → Except ε σ} {start final : σ} {x : α}
    {rest : List α} (hfinal : (x :: rest).foldlM step start = .ok final) :
    ∃ next, step start x = .ok next ∧ rest.foldlM step next = .ok final := by
  rw [List.foldlM_cons] at hfinal
  cases hnext : step start x with
  | error error =>
      rw [hnext] at hfinal
      cases hfinal
  | ok next =>
      rw [hnext] at hfinal
      exact ⟨next, rfl, hfinal⟩

theorem Path.IsNormal.take {path : Path} (hpath : path.IsNormal) (count : Nat) :
    (⟨path.root, path.names.take count⟩ : Path).IsNormal where
  stack := by
    change path.root.IsStack (path.names.take count).reverse
    have hstack := hpath.stack
    rw [← List.take_append_drop count path.names, List.reverse_append] at hstack
    -- the names that are left out lie on top
    generalize (path.names.drop count).reverse = upper at hstack
    induction upper with
    | nil => exact hstack
    | cons top upper ih => exact ih hstack.below
  slashFree := fun name hname => hpath.slashFree name (List.mem_of_mem_take hname)

theorem Path.canonical_render_take (text : Text) (count : Nat) :
    canonical (render ⟨(ofText text).root, (ofText text).names.take count⟩) =
      render ⟨(ofText text).root, (ofText text).names.take count⟩ := by
  rw [canonical, ofText_render ((isNormal_ofText text).take count)]
  exact fun name hname => backslashFree_ofText text name (List.mem_of_mem_take hname)

namespace Workspace

variable {before middle after : Workspace} {first second places : List (List Text × File)}
  {names rest : List Text} {file : File} {text : Text} {created : Timestamp}

/-- All that has changed from one workspace to another is that there are files at the given places,
and folders on the way to them. -/
structure Wrote (before after : Workspace) (places : List (List Text × File)) : Prop where
  location : after.location = before.location
  free : ∀ place ∈ places, ¬before.top.HasFolder place.1
  written : ∀ place ∈ places, ∃ file,
    (place.1, file) ∈ places ∧ after.top.descend place.1 = .ok (.file file)
  kept : ∀ names ∉ places.map Prod.fst, ∀ entry, before.top.descend names = .ok entry →
    ∃ now, after.top.descend names = .ok now ∧ entry.Keeps now
  listed : ∀ names now, after.top.descend names = .ok now →
    ∀ rest file, (rest, file) ∈ now.files → (names ++ rest, file) ∈ places ∨
      ∃ old, before.top.descend names = .ok old ∧ (rest, file) ∈ old.files

namespace Wrote

theorem refl (ws : Workspace) : Wrote ws ws [] where
  location := rfl
  free := fun _ hplace => (List.not_mem_nil hplace).elim
  written := fun _ hplace => (List.not_mem_nil hplace).elim
  kept := fun _ _ entry hentry => ⟨entry, hentry, .refl entry⟩
  listed := fun _ now hnow _ _ hmem => .inr ⟨now, hnow, hmem⟩

theorem hasFolder (hwrote : Wrote before after places) (hfolder : before.top.HasFolder names) :
    after.top.HasFolder names := by
  obtain ⟨modified, inner, hdescend⟩ := hfolder
  have hnot : names ∉ places.map Prod.fst := by
    intro hmem
    obtain ⟨place, hplace, rfl⟩ := List.mem_map.1 hmem
    exact hwrote.free place hplace ⟨modified, inner, hdescend⟩
  obtain ⟨_, hnow, now, rfl⟩ := hwrote.kept names hnot _ hdescend
  exact ⟨modified, now, hnow⟩

theorem trans (hfirst : Wrote before middle first) (hsecond : Wrote middle after second) :
    Wrote before after (first ++ second) where
  location := hsecond.location.trans hfirst.location
  free := by
    intro place hplace hfolder
    rcases List.mem_append.1 hplace with hplace | hplace
    · exact hfirst.free place hplace hfolder
    · exact hsecond.free place hplace (hfirst.hasFolder hfolder)
  written := by
    intro place hplace
    by_cases hlater : place.1 ∈ second.map Prod.fst
    · obtain ⟨other, hother, heq⟩ := List.mem_map.1 hlater
      obtain ⟨file, hfile, hnow⟩ := hsecond.written other hother
      rw [heq] at hfile hnow
      exact ⟨file, List.mem_append_right _ hfile, hnow⟩
    · have hplace : place ∈ first := by
        refine (List.mem_append.1 hplace).resolve_right fun hmem => ?_
        exact hlater (List.mem_map_of_mem hmem)
      obtain ⟨file, hfile, hmiddle⟩ := hfirst.written place hplace
      obtain ⟨_, hnow, rfl⟩ := hsecond.kept _ hlater _ hmiddle
      exact ⟨file, List.mem_append_left _ hfile, hnow⟩
  kept := by
    intro names hnot entry hentry
    rw [List.map_append, List.mem_append, not_or] at hnot
    obtain ⟨between, hbetween, hkept⟩ := hfirst.kept names hnot.1 entry hentry
    obtain ⟨now, hnow, hkept'⟩ := hsecond.kept names hnot.2 between hbetween
    exact ⟨now, hnow, hkept.trans hkept'⟩
  listed := by
    intro names now hnow rest file hmem
    rcases hsecond.listed names now hnow rest file hmem with hplace | ⟨between, hbetween, hmem⟩
    · exact .inl (List.mem_append_right _ hplace)
    · rcases hfirst.listed names between hbetween rest file hmem with hplace | hold
      · exact .inl (List.mem_append_left _ hplace)
      · exact .inr hold

theorem isThere (hwrote : Wrote before after places) (hthere : before.IsThere) :
    after.IsThere := by
  intro count
  rw [hwrote.location]
  exact hwrote.hasFolder (hthere count)

theorem namesOf_eq (hwrote : Wrote before after places) (text : Text) :
    after.namesOf text = before.namesOf text := by
  rw [namesOf, hwrote.location, namesOf]

/-- A file that is found is a written one or was there before. -/
theorem file_cases (hwrote : Wrote before after places)
    (hnow : after.top.descend names = .ok (.file file)) :
    (names, file) ∈ places ∨ before.top.descend names = .ok (.file file) := by
  rcases hwrote.listed names _ hnow [] file (List.mem_singleton_self _) with
    hplace | ⟨old, hold, hmem⟩
  · rw [List.append_nil] at hplace
    exact .inl hplace
  · cases old with
    | file =>
        cases List.mem_singleton.1 hmem
        exact .inr hold
    | folder => exact (Folder.ne_nil_of_mem_files hmem rfl).elim

end Wrote

theorem ne_nil_of_isFree {ws : Workspace} (hfree : Entry.IsFree (some ws.top) names) :
    names ≠ [] := by
  rintro rfl
  rcases hfree with hfree | ⟨_, hfree⟩
  · cases hfree
  · cases hfree

theorem not_hasFolder_of_isFree {ws : Workspace} (hfree : Entry.IsFree (some ws.top) names) :
    ¬ws.top.HasFolder names := by
  rintro ⟨modified, inner, hdescend⟩
  rcases hfree with hfree | ⟨_, hfree⟩
  · cases hdescend.symm.trans hfree
  · cases hdescend.symm.trans hfree

theorem top_putAt (ws : Workspace) (created : Timestamp) (entry : Entry) (hnames : names ≠ []) :
    ({ ws with root := ws.root.putAt created entry names } : Workspace).top =
      Entry.place created entry names (some ws.top) :=
  Entry.folder_putAt hnames

theorem wrote_putAt_folder {ws : Workspace} (hmissing : ws.top.descend names = .error .missing) :
    Wrote ws { ws with root := ws.root.putAt created (.folder created .empty) names } [] := by
  have hfree : Entry.IsFree (some ws.top) names := .inl hmissing
  have htop := ws.top_putAt created (.folder created .empty) (ne_nil_of_isFree hfree)
  constructor
  · rfl
  · exact fun _ hplace => (List.not_mem_nil hplace).elim
  · exact fun _ hplace => (List.not_mem_nil hplace).elim
  · intro others _ entry hentry
    rw [htop]
    refine Entry.exists_keeps_place hfree ?_ hentry
    rintro rfl
    cases hmissing.symm.trans hentry
  · intro others now hnow rest file hmem
    rw [htop] at hnow
    rcases Entry.mem_files_of_place hfree hnow hmem with ⟨more, hmore, _⟩ | hold
    · exact (List.not_mem_nil hmore).elim
    · exact .inr hold

theorem wrote_putAt_file {ws : Workspace} (hfree : Entry.IsFree (some ws.top) names) :
    Wrote ws { ws with root := ws.root.putAt created (.file file) names } [(names, file)] := by
  have htop := ws.top_putAt created (.file file) (ne_nil_of_isFree hfree)
  constructor
  · rfl
  · intro place hplace
    rw [List.mem_singleton.1 hplace]
    exact not_hasFolder_of_isFree hfree
  · intro place hplace
    rw [List.mem_singleton.1 hplace, htop]
    exact ⟨file, List.mem_singleton_self _, Entry.descend_place_self⟩
  · intro others hnot entry hentry
    rw [htop]
    refine Entry.exists_keeps_place hfree ?_ hentry
    rintro rfl
    exact hnot (List.mem_singleton_self _)
  · intro others now hnow rest data hmem
    rw [htop] at hnow
    rcases Entry.mem_files_of_place hfree hnow hmem with ⟨more, hmore, hnames⟩ | hold
    · cases List.mem_singleton.1 hmore
      rw [hnames, List.append_nil]
      exact .inl (List.mem_singleton_self _)
    · exact .inr hold

theorem wrote_ensureFolder {ws : Workspace} (hthere : ws.IsThere)
    (htext : Path.canonical text = text) (hmade : ws.ensureFolder created text = .ok after) :
    Wrote ws after [] := by
  unfold ensureFolder at hmade
  split at hmade
  next =>
    cases hmade
    exact .refl _
  next hlocate =>
    cases hmade
    rw [locate_canonical hthere htext] at hlocate
    exact wrote_putAt_folder hlocate
  next => cases hmade

theorem wrote_ensureFolders {ws : Workspace} {texts : List Text} (hthere : ws.IsThere)
    (htexts : ∀ text ∈ texts, Path.canonical text = text)
    (hmade : texts.foldlM (ensureFolder created) ws = .ok after) : Wrote ws after [] := by
  induction texts generalizing ws with
  | nil =>
      cases hmade
      exact .refl _
  | cons text rest ih =>
      obtain ⟨made, hfirst, hrest⟩ := exists_of_foldlM_cons hmade
      have hwrote := wrote_ensureFolder hthere (htexts text List.mem_cons_self) hfirst
      exact hwrote.trans (ih (hwrote.isThere hthere)
        (fun other hother => htexts other (List.mem_cons_of_mem text hother)) hrest)

theorem wrote_createFolder {ws : Workspace} (hthere : ws.IsThere)
    (htext : Path.canonical text = text)
    (hmade : ws.createFolder (Path.tidied text).parent.render created = .ok after) :
    Wrote ws after [] := by
  have htidied : Path.tidied text = Path.ofText text := by
    conv_lhs => rw [← htext]
    exact Path.tidied_render (Path.isNormal_ofText text).isTidy
  have hparent : (Path.ofText text).parent =
      ⟨(Path.ofText text).root,
        (Path.ofText text).names.take ((Path.ofText text).names.length - 1)⟩ := by
    rw [Path.parent, List.dropLast_eq_take]
  unfold createFolder at hmade
  split at hmade
  next => cases hmade
  next =>
    rw [htidied, hparent, Path.tidied_render ((Path.isNormal_ofText text).take _).isTidy] at hmade
    split at hmade
    next => cases hmade
    next made hstages =>
      have hafter : made = after := by
        split at hmade
        next => cases hmade
        next => exact Except.ok.inj hmade
      rw [← hafter]
      refine wrote_ensureFolders hthere ?_ hstages
      intro stage hstage
      obtain ⟨path, hpath, rfl⟩ := List.mem_map.1 hstage
      obtain ⟨count, _, rfl⟩ := List.mem_map.1 hpath
      dsimp only
      rw [List.take_take]
      exact Path.canonical_render_take text _

theorem wrote_write {ws : Workspace} (hthere : ws.IsThere) (htext : Path.canonical text = text)
    (hwrite : ws.write text file = .ok after) :
    Wrote ws after [(ws.namesOf text, file)] := by
  have htidy : Path.tidy text = text := by
    rw [← htext, Path.tidy_canonical]
  unfold write at hwrite
  dsimp only at hwrite
  rw [htidy] at hwrite
  split at hwrite
  next => cases hwrite
  next made hmade =>
    have hwrote := wrote_createFolder hthere htext hmade
    rw [← hwrote.namesOf_eq]
    suffices hfile : Wrote made after [(made.namesOf text, file)] from hwrote.trans hfile
    rw [locate_canonical (hwrote.isThere hthere) htext] at hwrite
    split at hwrite
    next => cases hwrite
    next =>
      split at hwrite
      next => cases hwrite
      next data hlocate =>
        cases hwrite
        exact wrote_putAt_file (.inr ⟨data, hlocate⟩)
      next hlocate =>
        cases hwrite
        exact wrote_putAt_file (.inl hlocate)
      next => cases hwrite

/-- Writing files one after the other. -/
theorem wrote_writes {ws : Workspace} {files : List (Text × File)} (hthere : ws.IsThere)
    (htexts : ∀ pair ∈ files, Path.canonical pair.1 = pair.1)
    (hwrites : files.foldlM (fun ws pair => ws.write pair.1 pair.2) ws = .ok after) :
    Wrote ws after (files.map fun pair => (ws.namesOf pair.1, pair.2)) := by
  induction files generalizing ws with
  | nil =>
      cases hwrites
      exact .refl _
  | cons pair rest ih =>
      obtain ⟨made, hfirst, hmore⟩ := exists_of_foldlM_cons hwrites
      have hwrote := wrote_write hthere (htexts pair List.mem_cons_self) hfirst
      have hrest := ih (hwrote.isThere hthere)
        (fun other hother => htexts other (List.mem_cons_of_mem pair hother)) hmore
      simp only [hwrote.namesOf_eq] at hrest
      exact hwrote.trans hrest

end Workspace

end Rebuild
