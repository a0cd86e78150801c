import ChainIndex.Command.Run
import Mathlib.Data.List.Basic

/-!
# The parts of commands

A command does one thing after another to the files it works on. What is put into one file
is found there and nowhere else: a chain stays in its file while a database is written to
another, and the same settings are loaded as long as the database is not where they are.

## Main definitions

* `Directory.HoldsChain`: A file holds a chain.
* `Text.isWhole`: A text goes on without a separator.
* `Shell.settingsOf`: What settings are read from what is at their path.

## Theorems

* `Directory.lookup_put`, `Directory.openDatabase?_put`: What is put somewhere is found there.
* `Directory.HoldsChain.put`: A chain stays in its file.
* `Shell.run_bind_ok`: A command goes on when a part of it has succeeded.
* `Shell.exists_loadConfig`: What settings are loaded depends on their path only.
* `Text.splitOn_of_isWhole`: A text without a separator is one part.
-/

namespace ChainIndex

/-! ## Parts of texts -/

namespace Text

/-- From a position on a text goes on for some characters and then ends, and none of the
    characters begins the separator. -/
def isWhole (text separator : String) : Nat → String.Pos.Raw → Bool
  | 0, i => i.atEnd text && String.Pos.Raw.extract text 0 i == text
  | length + 1, i =>
    !i.atEnd text && i.get text != (0 : String.Pos.Raw).get separator
      && isWhole text separator length (i.next text)

theorem splitOnAux_of_isWhole {text separator : String} {length : Nat} {i : String.Pos.Raw}
    (h : isWhole text separator length i = true) :
    text.splitOnAux separator 0 i 0 [] = [text] := by
  induction length generalizing i with
  | zero =>
      simp only [isWhole, Bool.and_eq_true, beq_iff_eq] at h
      rw [String.splitOnAux, if_pos h.1, h.2]
      rfl
  | succ length ih =>
      simp only [isWhole, Bool.and_eq_true, Bool.not_eq_true', bne_iff_ne] at h
      have hget : (i.get text == (0 : String.Pos.Raw).get separator) = false := by
        simpa using h.1.2
      rw [String.splitOnAux, if_neg (by simp [h.1.1]), hget]
      exact ih h.2

/-- A text without a separator is one part. -/
theorem splitOn_of_isWhole {text separator : String} (hseparator : (separator == "") = false)
    (length : Nat) (h : isWhole text separator length 0 = true) :
    text.splitOn separator = [text] := by
  rw [String.splitOn, hseparator]
  exact splitOnAux_of_isWhole h

end Text

/-! ## Files -/

namespace Directory

theorem lookup_filter {path : List String} {other : List String} (hne : other ≠ path)
    (files : List (List String × FileContent)) :
    (files.filter fun file => file.1 != path).lookup other = files.lookup other := by
  induction files with
  | nil => rfl
  | cons file rest ih =>
      by_cases hfile : file.1 = path
      · have hskip : (other == file.1) = false := by simpa [hfile] using hne
        rw [List.filter_cons_of_neg (by simp [hfile]), ih, List.lookup_cons, hskip]
      · rw [List.filter_cons_of_pos (by simp [hfile]), List.lookup_cons, List.lookup_cons, ih]

theorem lookup_put (directory : Directory) (path : String) (content : FileContent)
    (other : String) : (directory.put path content).lookup other =
      if endsInFolder other then none
      else if parts other = parts path then some content
      else directory.lookup other := by
  unfold lookup put
  by_cases hfolder : endsInFolder other = true
  · rw [if_pos hfolder, if_pos hfolder]
  · rw [if_neg hfolder, if_neg hfolder, if_neg hfolder]
    by_cases hparts : parts other = parts path
    · rw [if_pos hparts, hparts]
      exact List.lookup_cons_self
    · have hskip : (parts other == parts path) = false := by simpa using hparts
      rw [if_neg hparts, List.lookup_cons, hskip]
      exact lookup_filter hparts directory.files

theorem put_put (directory : Directory) (path : String) (first content : FileContent) :
    (directory.put path first).put path content = directory.put path content := by
  unfold put
  simp

/-- What is put somewhere makes no folder elsewhere. -/
theorem hasFolder_put (directory : Directory) {path : String} (content : FileContent)
    {folder : List String} (h : ¬ folder <+: parts path) :
    (directory.put path content).hasFolder folder = directory.hasFolder folder := by
  have hnot : folder.isPrefixOf (parts path) = false := by
    rw [← Bool.not_eq_true, List.isPrefixOf_iff_prefix]
    exact h
  have hfiles : (directory.files.filter fun file => file.1 != parts path).any
      (fun file => folder.isPrefixOf file.1 && decide (folder.length < file.1.length)) =
        directory.files.any fun file =>
          folder.isPrefixOf file.1 && decide (folder.length < file.1.length) := by
    rw [List.any_filter]
    congr 1
    funext file
    by_cases hfile : file.1 = parts path
    · simp [hfile, hnot]
    · simp [hfile]
  unfold hasFolder put
  simp only [List.any_cons, hnot, Bool.false_and, Bool.false_or]
  exact congrArg _ hfiles

/-- A database that can be opened is in a file. -/
theorem not_endsInFolder_of_open {directory : Directory} {path : String} {create : Bool}
    {store : TableStore} (h : directory.openDatabase? (.file path create) = some store) :
    endsInFolder path = false := by
  rw [← Bool.not_eq_true]
  intro hfolder
  rw [openDatabase?, lookup, if_pos hfolder] at h
  simp [canHold, hfolder] at h

/-- What is saved at a place is found there. -/
theorem openDatabase?_put (directory : Directory) {path : String} (create : Bool)
    (hpath : endsInFolder path = false) (store : TableStore) :
    (directory.put path (.database store)).openDatabase? (.file path create) = some store := by
  rw [openDatabase?, lookup_put, hpath]
  simp

/-- A file holds a chain. -/
def HoldsChain (directory : Directory) (file : String) (chain : List Block) : Prop :=
  ∃ content text, directory.lookup file = some (.bytes content) ∧
    String.fromUTF8? content = some text ∧ Shell.chainOfText? text = some chain

/-- A chain is not in the file of a database, not even before there are rows in it. -/
theorem HoldsChain.parts_ne {directory : Directory} {file path : String} {chain : List Block}
    {create : Bool} {store : TableStore} (h : directory.HoldsChain file chain)
    (hopen : directory.openDatabase? (.file path create) = some store) :
    parts file ≠ parts path := by
  intro hparts
  rcases h with ⟨content, text, hlookup, htext, hchain⟩
  have hfile : endsInFolder file = false := by
    rw [← Bool.not_eq_true]
    intro hfolder
    rw [lookup, if_pos hfolder] at hlookup
    exact absurd hlookup (by simp)
  have hsame : directory.lookup path = directory.lookup file := by
    rw [lookup, lookup, hfile, not_endsInFolder_of_open hopen, hparts]
  rw [openDatabase?, hsame, hlookup] at hopen
  simp only at hopen
  split at hopen
  · next hempty =>
    -- No chain is read from an empty file.
    have hnone : content = ByteArray.empty := ByteArray.ext (Array.eq_empty_of_size_eq_zero hempty)
    rw [hnone, show String.fromUTF8? ByteArray.empty = some "" by decide +kernel,
      Option.some.injEq] at htext
    rw [← htext, show Shell.chainOfText? "" = none by decide +kernel] at hchain
    exact absurd hchain (by simp)
  · exact absurd hopen (by simp)

/-- A chain stays in its file when another file is written. -/
theorem HoldsChain.put {directory : Directory} {file path : String} {chain : List Block}
    (h : directory.HoldsChain file chain) (hne : parts file ≠ parts path)
    (content : FileContent) : (directory.put path content).HoldsChain file chain := by
  rcases h with ⟨bytes, text, hlookup, hrest⟩
  refine ⟨bytes, text, ?_, hrest⟩
  have hfile : endsInFolder file = false := by
    rw [← Bool.not_eq_true]
    intro hfolder
    rw [lookup, if_pos hfolder] at hlookup
    exact absurd hlookup (by simp)
  rw [lookup_put, hfile, if_neg hne]
  exact hlookup

end Directory

/-! ## The parts of a command -/

namespace Shell

variable {α β : Type}

theorem run_bind (program : Shell α) (f : α → Shell β) (console : Console) :
    (program >>= f).run.run console = match program.run.run console with
      | (.ok a, behind) => (f a).run.run behind
      | (.error e, behind) => (.error e, behind) := by
  rw [ExceptT.run_bind, StateT.run_bind]
  rcases program.run.run console with ⟨_ | a, behind⟩
  · rfl
  · rfl

/-- A command goes on when a part of it has succeeded. -/
theorem run_bind_ok {program : Shell α} {f : α → Shell β} {console behind : Console} {a : α}
    (h : program.run.run console = (.ok a, behind)) :
    (program >>= f).run.run console = (f a).run.run behind := by
  rw [run_bind, h]

/-- Asking a database changes nothing. -/
theorem run_query (store : TableStore) (program : Program α) (console : Console) :
    (query store program).run.run console =
      ((program.run World.answer ⟨store, .ofChain [], console.now⟩).1.mapError .failed,
        console) := by
  change (orError (program.run World.answer ⟨store, .ofChain [], console.now⟩).1).run.run
    console = _
  rcases (program.run World.answer ⟨store, .ofChain [], console.now⟩).1 with e | a
  · rfl
  · rfl

theorem run_readText {file : String} {console : Console} {chain : List Block}
    (h : console.directory.HoldsChain file chain) :
    ∃ text, (readText file).run.run console = (.ok text, console) ∧
      chainOfText? text = some chain := by
  rcases h with ⟨content, text, hlookup, htext, hchain⟩
  refine ⟨text, ?_, hchain⟩
  have hget : (get : Shell Console).run.run console = (.ok console, console) := rfl
  refine (run_bind_ok hget).trans ?_
  simp only [hlookup, htext]
  rfl

/-- What settings are read from what is at their path, if anything is there. -/
def settingsOf (found : Option FileContent) (there : Bool) : Except Error Config :=
  match found with
  | some (.bytes content) => Config.load (some content)
  | some (.database _) => .error (.config .unreadable)
  | none => if there then .error (.config .unreadable) else Config.load none

/-- What settings are loaded depends on what is at their path only. -/
theorem exists_loadConfig {file : Option String} {console other : Console}
    (h : ∀ path ∈ file, other.directory.lookup path = console.directory.lookup path ∧
      other.directory.exists? path = console.directory.exists? path) :
    ∃ result, (loadConfig file).run.run console = (result, console) ∧
      (loadConfig file).run.run other = (result, other) := by
  -- Whatever is loaded is checked then, wherever that is.
  have hcheck : ∀ config : Config, ∃ result, ∀ at_ : Console,
      ((orFail .invalidConfig config.validate.toOption >>= fun _ => pure config) :
        Shell Config).run.run at_ = (result, at_) := by
    intro config
    rcases config.validate.toOption with _ | u
    · exact ⟨_, fun _ => rfl⟩
    · exact ⟨_, fun _ => rfl⟩
  cases file with
  | none =>
      rcases hcheck Config.standard with ⟨result, hresult⟩
      exact ⟨result, hresult console, hresult other⟩
  | some path =>
      rcases h path rfl with ⟨hlookup, hexists⟩
      have hrun : ∀ at_ : Console, (loadConfig (some path)).run.run at_ =
          ((orFail (.loadingConfig path) (settingsOf (at_.directory.lookup path)
            (at_.directory.exists? path)).toOption >>= fun config =>
              orFail .invalidConfig config.validate.toOption >>= fun _ => pure config) :
            Shell Config).run.run at_ := fun _ => rfl
      rw [hrun, hrun, hlookup, hexists]
      rcases (settingsOf (console.directory.lookup path) (console.directory.exists? path)).toOption
        with _ | config
      · exact ⟨_, rfl, rfl⟩
      · rcases hcheck config with ⟨result, hresult⟩
        exact ⟨result, hresult console, hresult other⟩

end Shell

end ChainIndex
