import RouteAudit.FileSystem.Write
import RouteAudit.Proofs.Addition
import RouteAudit.Proofs.Way

/-!
# What writing a file adds to a tree

To write a file is to make empty directories, one after the other (`MadeDirs`), and then to put the file
into the last one, beside the others or in the place of the file that was there (`PassesNoLink.write`).
A file that was written can be written again, and then nothing but its bytes changes (`IsWritten.write`).

Proof. What a path is found to name is a name in a directory (`WellFormed.locate_cases`), so what is put
there is an `Addition`, and all that was found before is found after it, the new node included.
-/

namespace RouteAudit

namespace FileSystem

variable {fs fs' : FileSystem} {path : String}

theorem IsSlot.exists_addition {name : String} {found : Found} (h : fs.IsSlot name found) {node : Node}
    (hfits : found.node = none ∨ ∃ old new, found.node = some (.file old) ∧ node = .file new) :
    ∃ m : Addition fs, m.name = name ∧ m.node = node ∧ m.result = fs.put found.place node := by
  obtain ⟨dir, children, hdir, hname, hplace, hnode⟩ := h
  rw [hnode] at hfits
  exact ⟨⟨dir, children, hdir, name, hname, node, hfits⟩, rfl, rfl, by rw [hplace]; rfl⟩

end FileSystem

namespace Addition

variable {fs : FileSystem} (m : Addition fs) {path : String}

theorem wellFormed (hwell : fs.WellFormed) (hnode : m.node.WellFormed) : m.result.WellFormed := by
  obtain ⟨children, hdir⟩ := hwell.workDir
  obtain ⟨node, hat, hkind⟩ := (m.keeps hwell.top).at? hdir
  cases hkind with
  | dir a b => exact ⟨m.wellFormed_result hwell.top hnode, b, hat⟩

/-- No link is added. -/
theorem at?_result_link (hnode : m.node = .dir [] ∨ ∃ bytes, m.node = .file bytes) {place : List String}
    {target : String} (h : m.result.at? place = some (.link target)) :
    fs.at? place = some (.link target) := by
  by_cases hbelow : m.place ++ [m.name] <+: place
  · -- nothing is at the new node or below it but an empty directory or a file
    obtain ⟨rest, rfl⟩ := hbelow
    have hrest : Node.at? rest m.node = some (.link target) :=
      (Node.at?_putAt_append m.node (m.place ++ [m.name]) rest fs.top).symm.trans h
    rcases hnode with hnode | ⟨bytes, hnode⟩ <;> rw [hnode] at hrest <;> cases rest <;> cases hrest
  · by_cases habove : place <+: m.place
    · obtain ⟨rest, hrest⟩ := habove
      have hdir : fs.at? (place ++ rest) = _ := (congrArg fs.at? hrest).trans m.hasDir
      obtain ⟨found, hfound, -⟩ := Option.bind_eq_some_iff.mp ((Node.at?_append _ _ _).symm.trans hdir)
      have hput := Node.at?_putAt_above hfound m.node (rest ++ [m.name])
      rw [← List.append_assoc, hrest] at hput
      obtain ⟨children, hchildren⟩ := Node.exists_dir_of_putAt_append m.node rest m.name found
      rw [hchildren] at hput
      cases h.symm.trans hput
    · rw [← h]
      refine (Node.at?_putAt_apart hbelow (fun hprefix => ?_) m.node fs.top).symm
      rcases List.prefix_concat_iff.mp hprefix with heq | hprefix
      · exact hbelow (heq ▸ List.prefix_refl _)
      · exact habove hprefix

theorem passesNoLink (hnode : m.node = .dir [] ∨ ∃ bytes, m.node = .file bytes)
    (h : fs.PassesNoLink path) : m.result.PassesNoLink path :=
  fun place hplace target hlink => h place hplace target (m.at?_result_link hnode hlink)

end Addition

namespace FileSystem

variable {fs fs' : FileSystem} {path : String}

/-! ## Making directories -/

/-- Empty directories are made, one after the other. -/
inductive MadeDirs : FileSystem → FileSystem → Prop
  | refl (fs : FileSystem) : MadeDirs fs fs
  | step {fs fs' : FileSystem} (m : Addition fs) (hnode : m.node = .dir [])
    (rest : MadeDirs m.result fs') : MadeDirs fs fs'

namespace MadeDirs

theorem trans {fs'' : FileSystem} (h : MadeDirs fs fs') (h' : MadeDirs fs' fs'') :
    MadeDirs fs fs'' := by
  induction h with
  | refl fs => exact h'
  | step m hnode rest ih => exact .step m hnode (ih h')

theorem wellFormed (h : MadeDirs fs fs') (hwell : fs.WellFormed) : fs'.WellFormed := by
  induction h with
  | refl fs => exact hwell
  | step m hnode rest ih => exact ih (m.wellFormed hwell (hnode ▸ Node.wellFormed_emptyDir))

theorem passesNoLink (h : MadeDirs fs fs') (hlinks : fs.PassesNoLink path) : fs'.PassesNoLink path := by
  induction h with
  | refl fs => exact hlinks
  | step m hnode rest ih => exact ih (m.passesNoLink (Or.inl hnode) hlinks)

end MadeDirs

theorem at?_put_self (fs : FileSystem) (place : List String) (node : Node) :
    (fs.put place node).at? place = some node := by
  have hput := Node.at?_putAt_append node place [] fs.top
  rwa [List.append_nil] at hput

/-- A directory that is made is found by its path. -/
theorem makeDir_spec (hwell : fs.WellFormed) (path : String) :
    MadeDirs fs (fs.makeDir path).files ∧
      ((fs.makeDir path).fault = none → (fs.makeDir path).files.isDir path = true) := by
  unfold makeDir
  cases hlocate : fs.locate .itself path with
  | error fault => exact ⟨.refl fs, fun h => nomatch h⟩
  | ok found =>
    obtain ⟨place, node⟩ := found
    cases node with
    | some node => exact ⟨.refl fs, fun h => nomatch h⟩
    | none =>
      obtain ⟨children, hdir⟩ | ⟨name, hslot⟩ := hwell.locate_cases hlocate
      · cases hdir
      obtain ⟨m, -, hnode, hresult⟩ : ∃ m : Addition fs, m.name = name ∧ m.node = .dir [] ∧
          m.result = fs.put place (.dir []) := hslot.exists_addition (Or.inl rfl)
      refine ⟨.step m hnode (hresult ▸ .refl _), fun _ => ?_⟩
      have hkeeps := m.keeps hwell.top
      rw [hresult] at hkeeps
      obtain ⟨found, hfound, -, hplace⟩ := hkeeps.locate_of_at? .target (by simp) hlocate
        (at?_put_self fs place (.dir [])) (by simp)
      rw [hplace (by simp)] at hfound
      exact isDir_of_stat (stat_eq_ok_iff.mpr ⟨place, hfound⟩)

/-- What leads to a directory is there, and none can be made. -/
theorem makeDir_of_isDir (h : fs.isDir path = true) : fs.makeDir path = ⟨fs, some .alreadyExists⟩ := by
  obtain ⟨children, hstat⟩ := exists_of_isDir h
  obtain ⟨place, hlocate⟩ := stat_eq_ok_iff.mp hstat
  obtain ⟨⟨place', node⟩, hfound, hthere, -⟩ := (Keeps.refl fs).locate_of_at? .itself
    (by simp) hlocate (at?_of_locate hlocate) (by simp)
  cases node with
  | none => cases hthere
  | some node => rw [makeDir, hfound]

theorem Changed.files_unlessDir (c : Changed) : (c.unlessDir path).files = c.files := by
  unfold unlessDir
  split_ifs <;> rfl

/-- No fault is left only where the path names a directory. -/
theorem Changed.isDir_of_unlessDir {c : Changed} (h : (c.unlessDir path).fault = none)
    (hdir : c.fault = none → c.files.isDir path = true) : c.files.isDir path = true := by
  unfold unlessDir at h
  split_ifs at h with his
  · exact his
  · exact hdir h

/-- The directory of a path that is given by its components from the last to the first, if any. -/
def HasDirs (fs : FileSystem) (components : List Path.Component) : Prop :=
  components ≠ [] → fs.isDir (Path.ofComponents components.reverse) = true

/-- A directory that is made with those above it is there. -/
theorem makeDirsUp_spec (hwell : fs.WellFormed) (components : List Path.Component) :
    MadeDirs fs (fs.makeDirsUp components).files ∧
      ((fs.makeDirsUp components).fault = none → (fs.makeDirsUp components).files.HasDirs components) := by
  induction components with
  | nil => exact ⟨.refl fs, fun _ h => absurd rfl h⟩
  | cons last above ih =>
    have hmake := makeDir_spec hwell (Path.ofComponents (last :: above).reverse)
    rw [makeDirsUp]
    cases hfault : (fs.makeDir (Path.ofComponents (last :: above).reverse)).fault with
    | none =>
      simp only [hfault]
      exact ⟨hmake.1, fun _ _ => hmake.2 hfault⟩
    | some fault =>
      cases fault with
      | notFound =>
        dsimp only
        cases hparents : (fs.makeDirsUp above).fault with
        | some fault =>
          simp only [hparents]
          exact ⟨ih.1, fun h => nomatch h⟩
        | none =>
          dsimp only
          have hagain := makeDir_spec (ih.1.wellFormed hwell) (Path.ofComponents (last :: above).reverse)
          rw [Changed.files_unlessDir]
          exact ⟨ih.1.trans hagain.1, fun h _ => Changed.isDir_of_unlessDir h hagain.2⟩
      | _ =>
        dsimp only
        rw [Changed.files_unlessDir]
        exact ⟨hmake.1, fun h _ => Changed.isDir_of_unlessDir h hmake.2⟩

theorem makeDirsUp_of_hasDirs {components : List Path.Component} (h : fs.HasDirs components) :
    fs.makeDirsUp components = ⟨fs, none⟩ := by
  cases components with
  | nil => rfl
  | cons last above =>
    have hdir := h (List.cons_ne_nil last above)
    rw [makeDirsUp, makeDir_of_isDir hdir]
    simp only [Changed.unlessDir, hdir, if_true]

theorem HasDirs.of_keeps {components : List Path.Component} (h : fs.HasDirs components)
    (hkeeps : fs.Keeps fs') : fs'.HasDirs components :=
  fun hne => hkeeps.isDir (h hne)

/-! ## Writing a file -/

/-- A file is there, and so is the directory that is made for it. -/
structure IsWritten (fs : FileSystem) (path : String) : Prop where
  parent : ∀ parent, Path.parent? path = some parent → fs.HasDirs (Path.components parent).reverse
  file : ∃ place bytes, fs.locate .newFile path = .ok ⟨place, some (.file bytes)⟩

theorem IsWritten.of_keeps (h : fs.IsWritten path) (hkeeps : fs.Keeps fs') : fs'.IsWritten path := by
  obtain ⟨place, bytes, hlocate⟩ := h.file
  obtain ⟨node, hlocate', hkind⟩ := hkeeps.locate_eq_ok hlocate
  cases hkind with
  | file a b => exact ⟨fun parent hparent => (h.parent parent hparent).of_keeps hkeeps, place, b, hlocate'⟩

/-- What is added to a tree when a file is put at a path whose directory exists. -/
theorem writeBytes_spec (hwell : fs.WellFormed) (hlinks : fs.PassesNoLink path) {bytes : ByteArray}
    (h : fs.writeBytes path bytes = ⟨fs', none⟩) :
    ∃ m : Addition fs, m.node = .file bytes ∧ Path.fileName? path = some m.name ∧ fs' = m.result ∧
      ∃ place, fs'.locate .newFile path = .ok ⟨place, some (.file bytes)⟩ := by
  unfold writeBytes at h
  cases hlocate : fs.locate .newFile path with
  | error fault =>
    rw [hlocate] at h
    cases h
  | ok found =>
    obtain ⟨place, node⟩ := found
    rw [hlocate] at h
    obtain ⟨children, hdir⟩ | ⟨name, hname, hslot, hlink⟩ := hlinks.locate_cases hwell hlocate
    · obtain rfl : node = _ := hdir
      cases h
    obtain ⟨hfits, rfl⟩ : (node = none ∨ ∃ old new, node = some (.file old) ∧
        Node.file bytes = .file new) ∧ fs.put place (.file bytes) = fs' := by
      cases node with
      | none => exact ⟨Or.inl rfl, congrArg Changed.files h⟩
      | some node =>
        cases node with
        | dir children => cases h
        | file old => exact ⟨Or.inr ⟨old, bytes, rfl, rfl⟩, congrArg Changed.files h⟩
        | link target => exact absurd rfl (hlink target)
    obtain ⟨m, rfl, hnode, hresult⟩ := hslot.exists_addition hfits
    have hkeeps := m.keeps hwell.top
    rw [hresult] at hkeeps
    obtain ⟨found, hfound, -, hplace⟩ := hkeeps.locate_of_at? .newFile (fun _ => rfl) hlocate
      (at?_put_self fs place (.file bytes)) (by simp)
    rw [hplace (by simp)] at hfound
    exact ⟨m, hnode, hname, hresult.symm, place, hfound⟩

/-- **What the first write adds**: directories above the file, and the file. -/
theorem PassesNoLink.write (hlinks : fs.PassesNoLink path) (hwell : fs.WellFormed) {text : String}
    (h : fs.writeWithParents path text = ⟨fs', none⟩) :
    ∃ between, MadeDirs fs between ∧ ∃ m : Addition between, m.node = .file text.toUTF8 ∧
      Path.fileName? path = some m.name ∧ fs' = m.result ∧ fs'.IsWritten path := by
  have hparent : MadeDirs fs (fs.makeParent path).files ∧ ((fs.makeParent path).fault = none →
      ∀ parent, Path.parent? path = some parent →
        (fs.makeParent path).files.HasDirs (Path.components parent).reverse) := by
    unfold makeParent
    cases Path.parent? path with
    | none => exact ⟨.refl fs, fun _ _ h => nomatch h⟩
    | some parent =>
      have hmake := makeDirsUp_spec hwell (Path.components parent).reverse
      refine ⟨hmake.1, fun hfault parent' heq => ?_⟩
      obtain rfl := Option.some.inj heq
      exact hmake.2 hfault
  unfold writeWithParents at h
  cases hfault : (fs.makeParent path).fault with
  | some fault =>
    simp only [hfault] at h
    rw [h] at hfault
    cases hfault
  | none =>
    simp only [hfault] at h
    have hwell' := hparent.1.wellFormed hwell
    obtain ⟨m, hnode, hname, rfl, place, hlocate⟩ :=
      writeBytes_spec hwell' (hparent.1.passesNoLink hlinks) h
    refine ⟨_, hparent.1, m, hnode, hname, rfl, fun parent heq => ?_, place, _, hlocate⟩
    exact (hparent.2 hfault parent heq).of_keeps (m.keeps hwell'.top)

/-- **What every further write adds**: the new bytes of the file. -/
theorem IsWritten.write (h : fs.IsWritten path) (hlinks : fs.PassesNoLink path) (hwell : fs.WellFormed)
    (text : String) : ∃ m : Addition fs, m.node = .file text.toUTF8 ∧ Path.fileName? path = some m.name ∧
      fs.writeWithParents path text = ⟨m.result, none⟩ ∧ m.result.IsWritten path := by
  have hparent : fs.makeParent path = ⟨fs, none⟩ := by
    unfold makeParent
    cases hparent : Path.parent? path with
    | none => rfl
    | some parent => exact makeDirsUp_of_hasDirs (h.parent parent hparent)
  obtain ⟨place, bytes, hlocate⟩ := h.file
  have hwrite : fs.writeBytes path text.toUTF8 = ⟨fs.put place (.file text.toUTF8), none⟩ := by
    rw [writeBytes, hlocate]
  obtain ⟨m, hnode, hname, hresult, -⟩ := writeBytes_spec hwell hlinks hwrite
  refine ⟨m, hnode, hname, ?_, h.of_keeps (m.keeps hwell.top)⟩
  simp only [writeWithParents, hparent, writeText, hwrite, hresult]

end FileSystem

end RouteAudit
