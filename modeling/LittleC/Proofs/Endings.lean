import Mathlib
import LittleC.Command.Run
import LittleC.Proofs.ExprText

/-! How a run of the compiler ends, and what it leaves behind. A run loads the program, writes the
tree if it is wanted, lowers, and puts the C text in its place. It ends where the first of
these fails, or after the last (`Ends`).

The files are behind `Files`, of which `Files.Atomic` asks what a disk gives (`Disk.atomic_access`):
reading changes no file, and writing replaces one whole file or fails and changes none.

`failed_run_writes_no_code`: after a run in which all steps succeed the C text is in one place, and
after any other it is in none, with no file changed but the one for the tree. -/
namespace LittleC.Command

section
variable {σ P : Type}

/-! ### Files -/

/-- One file has got this content, and no other has changed. -/
structure Replaces (file : σ → P → Option ByteArray) (p : P) (content : ByteArray) (s s' : σ) :
    Prop where
  here : file s' p = some content
  elsewhere : ∀ q, q ≠ p → file s' q = file s q

/-- What is asked of files: reading changes none, and writing replaces the whole file that the path
leads to, or fails and changes none. -/
structure Files.Atomic (files : Files (StateM σ)) (site : String → P)
    (file : σ → P → Option ByteArray) : Prop where
  read : ∀ path s, file ((files.read path).run s).2 = file s
  written : ∀ path content s s', (files.write path content).run s = (.ok (), s') →
    Replaces file (site path) content s s'
  refused : ∀ path content s s' fault, (files.write path content).run s = (.error fault, s') →
    file s' = file s

end

/-! ### Disks -/

namespace Disk

/-- Where the parts of a path lead, if all directories on the way are there. -/
def placeOf (parts : List String) : List String :=
  match parts with
  | "" :: rest => rest.foldl descend root
  | parts => parts.foldl descend []

/-- The file that a path leads to. -/
def site (path : String) : String :=
  joined (placeOf (path.splitOn "/"))

theorem step_eq_ok {place next : List String} {part : String} (h : step place part = .ok next) :
    next = descend place part := by
  unfold step at h
  split at h
  · cases h
  · cases h
    rfl

theorem walk_eq_ok {disk : Disk} {place last : List String} {parts : List String}
    (h : disk.walk place parts = .ok last) : last = parts.foldl descend place := by
  induction parts generalizing place with
  | nil =>
    cases h
    rfl
  | cons part rest ih =>
    obtain ⟨next, hnext, h⟩ := bind_eq_ok.mp h
    cases step_eq_ok hnext
    by_cases hdirectory : disk.hasDirectory (descend place part) = true
    · rw [if_pos hdirectory] at h
      exact ih h
    · rw [if_neg hdirectory] at h
      split at h
      · cases h
      · cases h

/-- The last part is one step further; an empty one is none. -/
theorem foldl_descend (parts place : List String) :
    parts.foldl descend place =
      descend (parts.dropLast.foldl descend place) (parts.getLast?.getD "") := by
  rcases List.eq_nil_or_concat parts with rfl | ⟨init, last, rfl⟩
  · rfl
  · simp

theorem folder_eq_ok {disk : Disk} {parts folder : List String}
    (h : disk.folder parts = .ok folder) :
    descend folder (parts.getLast?.getD "") = placeOf parts := by
  unfold Disk.folder at h
  split at h
  · cases h
  · next rest _ =>
    have hlast : ("" :: rest).getLast?.getD "" = rest.getLast?.getD "" := by
      rw [List.getLast?_cons]
      cases rest.getLast? <;> rfl
    rw [hlast, walk_eq_ok h]
    exact (foldl_descend rest root).symm
  · next hroot =>
    have hplace : placeOf parts = parts.foldl descend [] := by
      rw [placeOf]
      exact hroot
    rw [hplace, walk_eq_ok h]
    exact (foldl_descend parts []).symm

theorem write_eq_ok {disk disk' : Disk} {path : String} {content : ByteArray}
    (h : disk.write path content = .ok disk') :
    disk'.files = Assoc.insert (site path) content disk.files := by
  obtain ⟨folder, hfolder, h⟩ := bind_eq_ok.mp h
  -- the path has no slash at its end, so all its parts are left
  by_cases hslash : ((path.splitOn "/").reverse.dropWhile (· == "")).reverse.length <
      (path.splitOn "/").length
  · rw [if_pos hslash] at h
    cases h
  · rw [if_neg hslash] at h
    have hnamed : ((path.splitOn "/").reverse.dropWhile (· == "")).reverse = path.splitOn "/" := by
      have hsuffix := List.dropWhile_suffix (· == "") (l := (path.splitOn "/").reverse)
      rw [List.length_reverse] at hslash
      rw [hsuffix.eq_of_length_le (by rw [List.length_reverse]; omega), List.reverse_reverse]
    rw [hnamed] at hfolder h
    obtain ⟨place, hplace, h⟩ := bind_eq_ok.mp h
    cases step_eq_ok hplace
    rw [folder_eq_ok hfolder] at h
    split at h
    · cases h
    · cases h
      rfl

theorem access_write_ok {disk disk' : Disk} {path : String} {content : ByteArray}
    (h : disk.write path content = .ok disk') :
    (access.write path content).run disk = (.ok (), disk') := by
  simp [access, StateT.run, h]

theorem access_write_error {disk : Disk} {path : String} {content : ByteArray} {fault : FileFault}
    (h : disk.write path content = .error fault) :
    (access.write path content).run disk = (.error fault, disk) := by
  simp [access, StateT.run, h]

theorem access_write_cases {disk disk' : Disk} {path : String} {content : ByteArray}
    {result : Except FileFault Unit} (h : (access.write path content).run disk = (result, disk')) :
    (result = .ok () ∧ disk'.files = Assoc.insert (site path) content disk.files) ∨
      (∃ fault, result = .error fault) ∧ disk' = disk := by
  cases hwrite : disk.write path content with
  | ok written =>
    cases (access_write_ok hwrite).symm.trans h
    exact .inl ⟨rfl, write_eq_ok hwrite⟩
  | error fault =>
    cases (access_write_error hwrite).symm.trans h
    exact .inr ⟨⟨fault, rfl⟩, rfl⟩

/-- A disk gives what is asked of files. -/
theorem atomic_access : access.Atomic site fun disk q => disk.files.lookup q where
  read _ _ := rfl
  written path content disk disk' h := by
    rcases access_write_cases h with ⟨_, hfiles⟩ | ⟨⟨fault, hfault⟩, _⟩
    · constructor
      · rw [hfiles]
        exact Assoc.lookup_insert_self _ _ _
      · intro q hq
        rw [hfiles]
        exact Assoc.lookup_insert_of_ne hq _ _
    · cases hfault
  refused path content disk disk' fault h := by
    rcases access_write_cases h with ⟨hok, _⟩ | ⟨_, hdisk⟩
    · cases hok
    · rw [hdisk]

end Disk

/-! ### Steps -/

theorem run_bind_of_eq {σ α β : Type} {x : StateM σ α} {s s' : σ} {a : α}
    (h : x.run s = (a, s')) (f : α → StateM σ β) : (x >>= f).run s = (f a).run s' := by
  rw [StateT.run_bind, h]
  rfl

section
variable {σ : Type} (files : Files (StateM σ))

/-- A text is written, if there is a path for it. -/
def Wrote (path? : Option String) (text : String) (s s' : σ) : Prop :=
  match path? with
  | some path => (files.write path text.toUTF8).run s = (.ok (), s')
  | none => s' = s

/-- There is a path for a text, and it cannot be written there. -/
def Refused (path? : Option String) (text : String) (s s' : σ) : Prop :=
  ∃ path fault, path? = some path ∧ (files.write path text.toUTF8).run s = (.error fault, s')

/-- The path for the C text, if it is not printed. -/
def Options.codePath (o : Options) : Option String :=
  if o.toStdout then none else some o.target

/-- How a run ends behind its reading: the exit code, what is printed, and the state. -/
inductive Ends (o : Options) (source : String) (s : σ) : Nat → String → σ → Prop where
  | unloaded {error : Error} : o.load source = .error error → Ends o source s 1 "" s
  | treeRefused {p : Program} {s' : σ} : o.load source = .ok p →
      Refused files o.emitAst p.toJson.pretty s s' → Ends o source s 1 "" s'
  | unlowered {p : Program} {error : Error} {s' : σ} : o.load source = .ok p →
      Wrote files o.emitAst p.toJson.pretty s s' → p.lower = .error error → Ends o source s 1 "" s'
  | codeRefused {p : Program} {code : String} {s' s'' : σ} : o.load source = .ok p →
      Wrote files o.emitAst p.toJson.pretty s s' → p.lower = .ok code →
      Refused files o.codePath code s' s'' → Ends o source s 1 "" s''
  | done {p : Program} {code : String} {s' s'' : σ} : o.load source = .ok p →
      Wrote files o.emitAst p.toJson.pretty s s' → p.lower = .ok code →
      Wrote files o.codePath code s' s'' → Ends o source s 0 (if o.toStdout then code else "") s''

theorem writeText_ok {path text : String} {s s' : σ}
    (h : (files.write path text.toUTF8).run s = (.ok (), s')) :
    (writeText files path text).run s = (.ok (), s') := by
  rw [writeText, run_bind_of_eq h]
  rfl

theorem writeText_error {path text : String} {fault : FileFault} {s s' : σ}
    (h : (files.write path text.toUTF8).run s = (.error fault, s')) :
    (writeText files path text).run s = (.error (writeFailure path fault), s') := by
  rw [writeText, run_bind_of_eq h]
  rfl

theorem emitTree_ends (o : Options) (p : Program) (s : σ) :
    (∃ s', (emitTree files o p).run s = (.ok (), s') ∧
        Wrote files o.emitAst p.toJson.pretty s s') ∨
      ∃ message s', (emitTree files o p).run s = (.error message, s') ∧
        Refused files o.emitAst p.toJson.pretty s s' := by
  rw [emitTree]
  cases o.emitAst with
  | none => exact .inl ⟨s, rfl, rfl⟩
  | some path =>
    rcases hwrite : (files.write path p.toJson.pretty.toUTF8).run s with ⟨fault | _, s'⟩
    · exact .inr ⟨_, s', writeText_error files hwrite, path, fault, rfl, hwrite⟩
    · exact .inl ⟨s', writeText_ok files hwrite, hwrite⟩

theorem deliver_ends (o : Options) (code : String) (s : σ) :
    (∃ s', (deliver files o code).run s = (.ok (if o.toStdout then code else ""), s') ∧
        Wrote files o.codePath code s s') ∨
      ∃ message s', (deliver files o code).run s = (.error message, s') ∧
        Refused files o.codePath code s s' := by
  rw [deliver, Options.codePath]
  cases o.toStdout with
  | true => exact .inl ⟨s, rfl, rfl⟩
  | false =>
    rcases hwrite : (files.write o.target code.toUTF8).run s with ⟨fault | _, s'⟩
    · exact .inr ⟨_, s', run_bind_of_eq (writeText_error files hwrite) _, _, fault, rfl, hwrite⟩
    · exact .inl ⟨s', run_bind_of_eq (writeText_ok files hwrite) _, hwrite⟩

theorem compileText_ends (o : Options) (source : String) (s : σ) :
    (∃ text s', (compileText files o source).run s = (.ok text, s') ∧
        Ends files o source s 0 text s') ∨
      ∃ message s', (compileText files o source).run s = (.error message, s') ∧
        Ends files o source s 1 "" s' := by
  rw [compileText]
  cases hload : o.load source with
  | error error => exact .inr ⟨_, s, rfl, .unloaded hload⟩
  | ok p =>
    rcases emitTree_ends files o p s with ⟨s', htree, hwritten⟩ | ⟨message, s', htree, hrefused⟩
    · rw [run_bind_of_eq htree]
      cases hlower : p.lower with
      | error error => exact .inr ⟨_, s', rfl, .unlowered hload hwritten hlower⟩
      | ok code =>
        rcases deliver_ends files o code s' with
          ⟨s'', hcode, hplaced⟩ | ⟨message, s'', hcode, hrefused⟩
        · exact .inl ⟨_, s'', hcode, .done hload hwritten hlower hplaced⟩
        · exact .inr ⟨_, s'', hcode, .codeRefused hload hwritten hlower hrefused⟩
    · exact .inr ⟨message, s', run_bind_of_eq htree _, .treeRefused hload hrefused⟩

theorem textOf_toUTF8 (text : String) : textOf (.ok text.toUTF8) = .ok text := by
  have hvalid : text.toUTF8.IsValidUTF8 := text.isValidUTF8
  rw [textOf, String.fromUTF8?, dif_pos hvalid]
  rfl

/-- A run on a text ends in one of these ways. -/
theorem run_ends {o : Options} {source : String} {s s₁ : σ}
    (hread : (files.read o.input).run s = (.ok source.toUTF8, s₁)) :
    Ends files o source s₁ ((run files o).run s).1.exitCode ((run files o).run s).1.stdout
      ((run files o).run s).2 := by
  rw [run, run_bind_of_eq hread, textOf_toUTF8]
  rcases compileText_ends files o source s₁ with
    ⟨text, s', hrun, hends⟩ | ⟨message, s', hrun, hends⟩
  · simp only [run_bind_of_eq hrun]
    exact hends
  · simp only [run_bind_of_eq hrun]
    exact hends

end

/-! ### What the steps leave behind -/

section
variable {σ P : Type} {files : Files (StateM σ)} {site : String → P}
  {file : σ → P → Option ByteArray} {o : Options} {source : String} {p : Program} {code : String}
  {path? : Option String} {text : String} {s s' : σ}

/-- The file is not the one at this path, if there is one. -/
def Spared (site : String → P) (path? : Option String) (q : P) : Prop :=
  ∀ path, path? = some path → q ≠ site path

theorem Wrote.here {path : String} (h : Wrote files (some path) text s s')
    (hfiles : files.Atomic site file) : file s' (site path) = some text.toUTF8 :=
  (hfiles.written _ _ _ _ h).here

theorem Wrote.elsewhere (h : Wrote files path? text s s') (hfiles : files.Atomic site file) {q : P}
    (hq : Spared site path? q) : file s' q = file s q := by
  cases path? with
  | none => exact congrArg (file · q) h
  | some path => exact (hfiles.written _ _ _ _ h).elsewhere q (hq path rfl)

theorem Wrote.unique {s'' : σ} (h : Wrote files path? text s s')
    (h' : Wrote files path? text s s'') : s' = s'' := by
  cases path? with
  | none => exact h.trans h'.symm
  | some path => exact (Prod.mk.inj (h.symm.trans h')).2

theorem Refused.unchanged (h : Refused files path? text s s') (hfiles : files.Atomic site file) :
    file s' = file s := by
  obtain ⟨path, fault, _, hwrite⟩ := h
  exact hfiles.refused _ _ _ _ _ hwrite

theorem Refused.not_wrote {s'' : σ} (h : Refused files path? text s s') :
    ¬ Wrote files path? text s s'' := by
  obtain ⟨path, fault, rfl, hwrite⟩ := h
  intro hwritten
  cases hwrite.symm.trans hwritten

/-! ### What a run leaves behind -/

/-- All steps of a run succeed, with this program and this C text. -/
def Succeeds (files : Files (StateM σ)) (o : Options) (source : String) (s : σ) (p : Program)
    (code : String) : Prop :=
  ∃ s' s'', o.load source = .ok p ∧ Wrote files o.emitAst p.toJson.pretty s s' ∧
    p.lower = .ok code ∧ Wrote files o.codePath code s' s''

variable {n : Nat}

theorem Ends.of_unloaded (h : Ends files o source s n text s') {error : Error}
    (hload : o.load source = .error error) : n = 1 ∧ text = "" ∧ s' = s := by
  cases h with
  | unloaded => exact ⟨rfl, rfl, rfl⟩
  | treeRefused hload' | unlowered hload' | codeRefused hload' | done hload' =>
    cases hload.symm.trans hload'

theorem Ends.of_treeRefused (h : Ends files o source s n text s') (hfiles : files.Atomic site file)
    (hload : o.load source = .ok p) {s'' : σ}
    (hrefused : Refused files o.emitAst p.toJson.pretty s s'') :
    n = 1 ∧ text = "" ∧ file s' = file s := by
  cases h with
  | unloaded => exact ⟨rfl, rfl, rfl⟩
  | treeRefused _ hrefused' => exact ⟨rfl, rfl, hrefused'.unchanged hfiles⟩
  | unlowered hload' hwritten | codeRefused hload' hwritten | done hload' hwritten =>
    cases hload.symm.trans hload'
    exact absurd hwritten hrefused.not_wrote

/-- A run that does not end well has printed nothing and written nothing but the tree. -/
theorem Ends.of_failed (h : Ends files o source s n text s') (hfiles : files.Atomic site file)
    (hfails : ∀ p code, ¬ Succeeds files o source s p code) :
    n = 1 ∧ text = "" ∧ ∀ q, Spared site o.emitAst q → file s' q = file s q := by
  cases h with
  | unloaded => exact ⟨rfl, rfl, fun _ _ => rfl⟩
  | treeRefused _ hrefused => exact ⟨rfl, rfl, fun q _ => congrFun (hrefused.unchanged hfiles) q⟩
  | unlowered _ hwritten => exact ⟨rfl, rfl, fun _ hq => hwritten.elsewhere hfiles hq⟩
  | codeRefused _ hwritten _ hrefused =>
    refine ⟨rfl, rfl, fun q hq => ?_⟩
    rw [hrefused.unchanged hfiles]
    exact hwritten.elsewhere hfiles hq
  | done hload hwritten hlower hplaced =>
    exact absurd ⟨_, _, hload, hwritten, hlower, hplaced⟩ (hfails _ _)

theorem Ends.of_succeeds (h : Ends files o source s n text s')
    (hdone : Succeeds files o source s p code) :
    n = 0 ∧ text = (if o.toStdout then code else "") ∧
      ∃ s₂, Wrote files o.emitAst p.toJson.pretty s s₂ ∧ Wrote files o.codePath code s₂ s' := by
  obtain ⟨s₂, s₃, hload, hwritten, hlower, hplaced⟩ := hdone
  cases h with
  | unloaded hload' =>
    cases hload.symm.trans hload'
  | treeRefused hload' hrefused =>
    cases hload.symm.trans hload'
    exact absurd hwritten hrefused.not_wrote
  | unlowered hload' _ hlower' =>
    cases hload.symm.trans hload'
    cases hlower.symm.trans hlower'
  | codeRefused hload' hwritten' hlower' hrefused =>
    cases hload.symm.trans hload'
    cases hlower.symm.trans hlower'
    rw [hwritten'.unique hwritten] at hrefused
    exact absurd hplaced hrefused.not_wrote
  | done hload' hwritten' hlower' hplaced' =>
    cases hload.symm.trans hload'
    cases hlower.symm.trans hlower'
    exact ⟨rfl, rfl, _, hwritten', hplaced'⟩

/-- **A failed run writes no C text.** Where the program cannot be loaded, or its tree cannot be
written, no file changes. Where it is loaded and cannot be lowered, or the C text cannot be
written, no file changes but the one for the tree. Nothing is printed in any of these runs, and
the exit code is one. Where all steps succeed, the exit code is zero and the C text is in one
place: it is printed, or it is the content of its file. The file for the tree has the tree,
unless it is also the file for the C text, and all other files are as before. -/
theorem failed_run_writes_no_code (hfiles : files.Atomic site file) (o : Options) (source : String)
    (s s₁ : σ) (hread : (files.read o.input).run s = (.ok source.toUTF8, s₁)) :
    let out := ((run files o).run s).1
    let before := file s
    let after := file ((run files o).run s).2
    (∀ error, o.load source = .error error →
      out.exitCode = 1 ∧ out.stdout = "" ∧ after = before) ∧
    (∀ p error, o.load source = .ok p → p.lower = .error error →
      out.exitCode = 1 ∧ out.stdout = "" ∧ ∀ q, Spared site o.emitAst q → after q = before q) ∧
    (∀ p s₂, o.load source = .ok p → Refused files o.emitAst p.toJson.pretty s₁ s₂ →
      out.exitCode = 1 ∧ out.stdout = "" ∧ after = before) ∧
    (∀ p code, Succeeds files o source s₁ p code →
      out.exitCode = 0 ∧ out.stdout = (if o.toStdout then code else "") ∧
      (o.toStdout = false → after (site o.target) = some code.toUTF8) ∧
      (∀ path, o.emitAst = some path → Spared site o.codePath (site path) →
        after (site path) = some p.toJson.pretty.toUTF8) ∧
      ∀ q, Spared site o.emitAst q → Spared site o.codePath q → after q = before q) ∧
    ((∀ p code, ¬ Succeeds files o source s₁ p code) →
      out.exitCode = 1 ∧ out.stdout = "" ∧ ∀ q, Spared site o.emitAst q → after q = before q) := by
  have hends := run_ends files hread
  have hstart : file s₁ = file s := by
    have hkept := hfiles.read o.input s
    rwa [hread] at hkept
  intro out before after
  have hbefore : before = file s₁ := hstart.symm
  rw [hbefore]
  refine ⟨fun error hload => ?_, fun p error hload hlower => ?_, fun p s₂ hload hrefused => ?_,
    fun p code hdone => ?_, fun hfails => hends.of_failed hfiles hfails⟩
  · obtain ⟨hexit, hstdout, hstate⟩ := hends.of_unloaded hload
    exact ⟨hexit, hstdout, congrArg file hstate⟩
  · refine hends.of_failed hfiles fun p' code hdone => ?_
    obtain ⟨_, _, hload', _, hlower', _⟩ := hdone
    cases hload.symm.trans hload'
    cases hlower.symm.trans hlower'
  · exact hends.of_treeRefused hfiles hload hrefused
  · obtain ⟨hexit, hstdout, s₂, hwritten, hplaced⟩ := hends.of_succeeds hdone
    refine ⟨hexit, hstdout, fun hfile => ?_, fun path hpath hq => ?_, fun q hq hq' => ?_⟩
    · rw [Options.codePath, hfile] at hplaced
      exact hplaced.here hfiles
    · rw [hpath] at hwritten
      exact (hplaced.elsewhere hfiles hq).trans (hwritten.here hfiles)
    · exact (hplaced.elsewhere hfiles hq').trans (hwritten.elsewhere hfiles hq)

end

/-- A disk with one file. -/
def sole (text : String) : Disk :=
  ⟨[("a", text.toUTF8)]⟩

/-- The tree goes to the file that is read. -/
def overwriting : Options :=
  ⟨"a", none, some "a", false, false, 0⟩

/-- With the tree in the place of the input: a call of an unknown function, and a program that is
lowered. -/
theorem failed_run_writes_no_code_overwriting :
    ((runOn (sole "f();") overwriting).1.exitCode = 1 ∧
      (runOn (sole "f();") overwriting).1.stdout = "" ∧
      (runOn (sole "f();") overwriting).2.files.lookup "a.c" = none) ∧
    (runOn (sole "return 1;") overwriting).1.exitCode = 0 ∧
      (runOn (sole "return 1;") overwriting).2.files.lookup "a.c" = some "return 1;".toUTF8 ∧
      (runOn (sole "return 1;") overwriting).2.files.lookup "a" =
        some (Program.toJson [.ret (some (.integer "1"))]).pretty.toUTF8 := by
  have hread (text : String) :
      (Disk.access.read "a").run (sole text) = (.ok text.toUTF8, sole text) := by
    have hcontent : (sole text).read "a" = .ok text.toUTF8 := by cbv
    simp [Disk.access, StateT.run, hcontent]
  have htarget : Disk.site overwriting.target = "a.c" := by cbv
  have htree : Disk.site "a" = "a" := by cbv
  constructor
  · have hparse : parseSource "f();" "a" = .ok [.call "f" []] := by cbv
    have hlower :
        Program.lower [.call "f" []] = .error (.unlocated (.undefinedFunction "f")) := by cbv
    obtain ⟨hexit, hstdout, hrest⟩ :=
      (failed_run_writes_no_code Disk.atomic_access overwriting "f();" _ _ (hread _)).2.1 _ _
        hparse hlower
    refine ⟨hexit, hstdout, hrest "a.c" ?_⟩
    rintro path ⟨⟩
    rw [htree]
    decide
  · have hparse : parseSource "return 1;" "a" = .ok [.ret (some (.integer "1"))] := by cbv
    have hlower : Program.lower [.ret (some (.integer "1"))] = .ok "return 1;" := by cbv
    have hover (tree : ByteArray) : (Disk.access.write "a" tree).run (sole "return 1;") =
        (.ok (), ⟨[("a", tree)]⟩) :=
      Disk.access_write_ok (by cbv)
    have hbeside (tree code : ByteArray) : (Disk.access.write "a.c" code).run ⟨[("a", tree)]⟩ =
        (.ok (), ⟨[("a", tree), ("a.c", code)]⟩) :=
      Disk.access_write_ok (by cbv)
    obtain ⟨hexit, _, hcode, hjson, _⟩ :=
      (failed_run_writes_no_code Disk.atomic_access overwriting "return 1;" _ _
        (hread _)).2.2.2.1 _ _ ⟨_, _, hparse, hover _, hlower, hbeside _ _⟩
    rw [htarget] at hcode
    have hspared : Spared Disk.site overwriting.codePath (Disk.site "a") := by
      rintro path ⟨⟩
      rw [htree, htarget]
      decide
    have htext := hjson "a" rfl hspared
    rw [htree] at htext
    exact ⟨hexit, hcode rfl, htext⟩

end LittleC.Command
