import ChainIndex.Proofs.Chain.Fork
import ChainIndex.Proofs.Command.Shell
import ChainIndex.Proofs.Follower.Resumed

/-!
# Replaying into a database that is there

A replay is a process of its own, over a source that knows one chain, but the database it
works on may have been filled by another one. If the chain in the database begins the new
one, the replay goes on from its end and leaves what replaying the new chain into an empty
database leaves, but for the ledger; if it is the new chain, nothing is done.

Otherwise the last block in the database is no block of the new chain. It has to be undone
first, and to undo a block takes the block. A source that has followed the chain that was
replaced still serves it, but one that was made from the new chain alone never held it: the
replay says that this block is not found and leaves the database as it is.

## Main definitions

* `Command.report`: What a replay prints in the end.
* `Directory.Asks`: Arguments that ask to replay a chain.
* `Directory.FreshDatabase`: A database without rows.

## Theorems

* `run_replay`: What the command does.
* `performed_on`, `performed_lost`: Replays into a database that is kept.
* `replay_into_database`: Which replays converge, and what becomes of the others.
-/

namespace ChainIndex

open Entity Program Chain

/-! ## Chains that share their last block -/

namespace Chain

variable {served served' : String → Option Block} {a b : List Block}

/-- Two chains are made of the blocks of one source if a hash names one block in both. -/
theorem Linked.exists_common (ha : Linked served a) (hb : Linked served' b)
    (hnames : ∀ x ∈ a, ∀ y ∈ b, x.hash = y.hash → x = y) :
    ∃ common, Linked common a ∧ Linked common b := by
  refine ⟨fun hash => if hash ∈ b.map Block.hash then served' hash else served hash,
    ⟨ha.numbered, fun x hx => ?_, ha.linked⟩, ⟨hb.numbered, fun y hy => ?_, hb.linked⟩⟩
  · split
    · next hmem =>
      rcases List.mem_map.mp hmem with ⟨y, hy, hhash⟩
      rw [hnames x hx y hy hhash.symm, hb.served y hy]
    · exact ha.served x hx
  · rw [if_pos (List.mem_map_of_mem hy), hb.served y hy]

/-- If a hash names one block in both, one chain begins the other or the other does not have
    its last block. -/
theorem Linked.prefix_or_lost (ha : Linked served a) (hb : Linked served' b)
    (hnames : ∀ x ∈ a, ∀ y ∈ b, x.hash = y.hash → x = y) :
    a <+: b ∨ ∀ tip, a.getLast? = some tip → tip.hash ∉ b.map Block.hash := by
  rcases ha.exists_common hb hnames with ⟨common, ha', hb'⟩
  by_cases hlost : ∀ tip, a.getLast? = some tip → tip.hash ∉ b.map Block.hash
  · exact Or.inr hlost
  · left
    push Not at hlost
    rcases hlost with ⟨tip, htip, hmem⟩
    rcases List.mem_map.mp hmem with ⟨block, hblock, hhash⟩
    cases a using List.reverseRecOn with
    | nil => exact List.nil_prefix
    | append_singleton init last =>
        rw [List.getLast?_append, List.getLast?_singleton, Option.some_or,
          Option.some.injEq] at htip
        subst htip
        rw [← hnames last List.mem_concat_self block hblock hhash.symm] at hblock
        -- The last block of one chain is at the same height in the other.
        rcases List.getElem?_of_mem hblock with ⟨i, hget⟩
        obtain rfl : init.length = i :=
          ha.numbered.height_last.symm.trans (hb.numbered i last hget)
        have hagree := ha'.agree hb' (by simp) hget
        rw [List.prefix_iff_getElem?]
        intro i hi
        rw [List.length_append, List.length_singleton] at hi
        rw [← hagree i (by omega), List.getElem?_eq_getElem]

end Chain

/-! ## Replays of a chain -/

section

variable {symbol : String} {served served' : String → Option Block} {chain rest : List Block}
variable {tables : TableStore} {config : Config} {now : Int64}

theorem exists_patience : ∃ actions, patience = actions + 5 := ⟨999999995, rfl⟩

/-- A replay is a cycle that has its flags to itself. -/
theorem replay_eq {actions : Nat} (hpatience : patience = actions + 5) (config : Config)
    (world : World TableStore) : replay config world =
      match CyclePoint.run (Follower.ofRegistry (.standard config.nativeTokenSymbol)).stepOn
        (actions + 3) (.checking 0) ⟨⟨true, true⟩, world⟩ with
      | some (outcome, state) => ⟨outcome, state.world.store⟩
      | none => ⟨.error (.other "the cycle does not end"), world.store⟩ := by
  unfold replay runCycle
  rw [hpatience, CyclePoint.run_succ, CyclePoint.run_succ]
  rfl

/-- A replay goes on from a chain that the new one begins with. -/
theorem replay_on (h : KeptIn config.nativeTokenSymbol chain tables)
    (hlinked : Linked served (chain ++ rest)) (hne : chain ++ rest ≠ [])
    (hfits : 2 * (chain ++ rest).length + 5 ≤ patience) (htips : TipsRead [] (chain ++ rest))
    (hindexed : ∃ after, Chain.tables config.nativeTokenSymbol (chain ++ rest) = .ok after)
    (now : Int64) :
    ∃ behind, replay config ⟨tables, .ofChain (chain ++ rest), now⟩ =
        ⟨.ok (.completed rest.length), behind⟩ ∧
      KeptIn config.nativeTokenSymbol (chain ++ rest) behind ∧ (rest = [] → behind = tables) := by
  have hrest : TipsRead chain rest := fun front hfront =>
    htips (chain ++ front) ((List.prefix_append_right_inj chain).mpr hfront)
  have hshort : (chain ++ rest).length < UInt32.size := lt_size_of_patience (by omega)
  rcases exists_patience with ⟨actions, hpatience⟩
  rw [hpatience, List.length_append] at hfits
  rcases h.run_on hlinked hne hshort hrest hindexed
    (show 2 * rest.length + 3 ≤ actions + 3 by omega) 0 now with ⟨behind, hrun, hkept, hsame⟩
  refine ⟨behind, ?_, hkept, hsame⟩
  rw [replay_eq hpatience, hrun, Nat.zero_add]

/-- What the success of a replay into an empty database says of its chain. -/
theorem replay_succeeded (hlinked : Linked served chain) (hne : chain ≠ [])
    {outcome : CycleOutcome}
    (hok : (replay config ⟨.empty, .ofChain chain, now⟩).outcome = .ok outcome) :
    2 * chain.length + 5 ≤ patience ∧ TipsRead [] chain ∧
      ∃ after, Chain.tables config.nativeTokenSymbol chain = .ok after := by
  rcases exists_patience with ⟨actions, hpatience⟩
  rw [replay_eq hpatience] at hok
  split at hok
  · next result state hrun =>
    simp only at hok
    subst hok
    have hempty := KeptIn.empty config.nativeTokenSymbol
    rcases hempty.of_run hlinked hne (by rw [hpatience, List.length_nil]; omega) hrun with
      ⟨hactions, htips, _, hkept⟩
    exact ⟨by omega, htips, _, hkept.rows⟩
  · exact absurd hok (by simp)

/-- A replay without the tip of the database fails and changes nothing. -/
theorem replay_lost {other init : List Block} {last : Block}
    (h : KeptIn config.nativeTokenSymbol (init ++ [last]) tables)
    (hnumbered : Numbered (init ++ [last])) (hfits : 2 * (init ++ [last]).length + 5 ≤ patience)
    (htips : TipsRead [] (init ++ [last])) (hlinked : Linked served other)
    (hlost : last.hash ∉ other.map Block.hash) (now : Int64) :
    replay config ⟨tables, .ofChain other, now⟩ =
      ⟨.error (.source (.blockNotFound last.hash)), tables⟩ := by
  rcases exists_patience with ⟨actions, hpatience⟩
  rw [replay_eq hpatience,
    h.run_lost hnumbered (lt_size_of_patience (by omega)) (htips _ (List.prefix_refl _)) hlinked
      hlost now]

end

/-! ## The command -/

namespace Command

/-- What a replay prints in the end. -/
def report (replayed : Replay) : Shell Unit := do
  Shell.print (outcomeText (← Shell.orError replayed.outcome))
  if let some tip ← Shell.query replayed.store BlockRecord.tip? then
    Shell.print (tipText "tip: " tip)

theorem run_report_error {replayed : Replay} {e : Error} (h : replayed.outcome = .error e)
    (console : Console) : (report replayed).run.run console = (.error (.failed e), console) := by
  unfold report
  rw [h]
  rfl

theorem run_report_ok {replayed : Replay} {outcome : CycleOutcome} {tip : BlockRecord}
    (h : replayed.outcome = .ok outcome) (console : Console)
    (htip : (BlockRecord.tip?.run World.answer
      ⟨replayed.store, .ofChain [], console.now⟩).1 = .ok (some tip)) :
    (report replayed).run.run console = (.ok (), { console with
      printed := console.printed ++ outcomeText outcome ++ tipText "tip: " tip }) := by
  have houtcome : (Shell.orError replayed.outcome).run.run console = (.ok outcome, console) := by
    rw [h]
    rfl
  have hquery : (Shell.query replayed.store BlockRecord.tip?).run.run
      { console with printed := console.printed ++ outcomeText outcome } =
        (.ok (some tip), { console with printed := console.printed ++ outcomeText outcome }) := by
    rw [Shell.run_query, htip]
    rfl
  unfold report
  rw [Shell.run_bind_ok houtcome]
  exact Shell.run_bind_ok hquery

/-- What is told of a tip is the same before and after its text is read. -/
theorem tipText_reread {record again : BlockRecord} (h : record.reread = some again)
    (label : String) : tipText label again = tipText label record := by
  rcases BlockRecord.of_reread h with ⟨hhash, hheight⟩
  rw [tipText, tipText, hhash, hheight]

end Command

section

variable {directory : Directory} {arguments : List String} {database path file : String}
variable {settings : Option String} {create : Bool} {config : Config} {now : Int64}
variable {served : String → Option Block} {chain rest : List Block} {tables : TableStore}

/-- The tip of a database, as it is told in the end. -/
theorem exists_tip {last : Block} (h : KeptIn config.nativeTokenSymbol chain tables)
    (hnumbered : Numbered chain) (htip : ∃ tip, tipOf chain = .ok tip)
    (hlast : chain.getLast? = some last) (now : Int64) :
    ∃ tip, (BlockRecord.tip?.run World.answer ⟨tables, .ofChain [], now⟩).1 = .ok (some tip) ∧
      ∀ label, Command.tipText label tip =
        Command.tipText label (BlockRecord.ofBlock last) := by
  rw [h.listedIn.run_tip? hnumbered, tipOf, hlast]
  rw [tipOf, hlast] at htip
  rcases hread : (BlockRecord.ofBlock last).reread with _ | tip
  · simp [hread] at htip
  · exact ⟨tip, by simp [hread], Command.tipText_reread hread⟩

/-- Arguments that ask for a replay. -/
theorem performArguments_replay
    (hasked : Request.ofArguments? arguments = some (.run (.replay database file settings))) :
    performArguments directory now arguments =
      match (Command.run (.replay database file settings)).run.run ⟨directory, now, ""⟩ with
      | (.ok (), console) => ⟨none, console⟩
      | (.error failure, console) => ⟨some failure, console⟩ := by
  unfold performArguments
  rw [hasked]
  rfl

/-- What a replay does: it opens the database, follows the chain, and reports. -/
theorem run_replay
    (hconfig : (Shell.loadConfig settings).run.run ⟨directory, now, ""⟩ =
      (.ok config, ⟨directory, now, ""⟩))
    (hplace : DatabasePlace.ofName? database = some (.file path create))
    (hopen : directory.openDatabase? (.file path create) = some tables)
    (hholds : directory.HoldsChain file chain) :
    (Command.run (.replay database file settings)).run.run ⟨directory, now, ""⟩ =
      (Command.report (replay config ⟨tables, .ofChain chain, now⟩)).run.run
        ⟨directory.put path (.database (replay config ⟨tables, .ofChain chain, now⟩).store),
          now, ""⟩ := by
  have hheld : (⟨directory, now, ""⟩ : Console).directory.HoldsChain file chain := hholds
  rcases Shell.run_readText hheld with ⟨text, htext, hchain⟩
  have hopened : (Shell.openDatabase database).run.run ⟨directory, now, ""⟩ =
      (.ok (.file path create, tables), ⟨directory.put path (.database tables), now, ""⟩) := by
    have hnamed : (Shell.orFail (.openingDatabase database)
        (DatabasePlace.ofName? database)).run.run ⟨directory, now, ""⟩ =
          (.ok (.file path create), ⟨directory, now, ""⟩) := by
      rw [hplace]
      rfl
    have hfound : (Shell.orFail (.openingDatabase database)
        (directory.openDatabase? (.file path create))).run.run ⟨directory, now, ""⟩ =
          (.ok tables, ⟨directory, now, ""⟩) := by
      rw [hopen]
      rfl
    rw [Shell.openDatabase, Shell.run_bind_ok hnamed]
    exact Shell.run_bind_ok hfound
  have hparsed : (Shell.orFail (.parsing file) (Shell.chainOfText? text)).run.run
      ⟨directory, now, ""⟩ = (.ok chain, ⟨directory, now, ""⟩) := by
    rw [hchain]
    rfl
  -- The database is saved as it was opened, and once more as the replay has left it.
  rw [← directory.put_put path (.database tables)
      (.database (replay config ⟨tables, .ofChain chain, now⟩).store),
    Command.run, Shell.run_bind_ok hconfig, Shell.run_bind_ok htext, Shell.run_bind_ok hparsed,
    Shell.run_bind_ok hopened]
  rfl

section

variable
  (hasked : Request.ofArguments? arguments = some (.run (.replay database file settings)))
  (hconfig : (Shell.loadConfig settings).run.run ⟨directory, now, ""⟩ =
    (.ok config, ⟨directory, now, ""⟩))
  (hplace : DatabasePlace.ofName? database = some (.file path create))
  (hopen : directory.openDatabase? (.file path create) = some tables)
include hasked hconfig hplace hopen

/-- A replay into a database that is kept goes on from there. -/
theorem performed_on {last : Block} (h : KeptIn config.nativeTokenSymbol chain tables)
    (hholds : directory.HoldsChain file (chain ++ rest)) (hlinked : Linked served (chain ++ rest))
    (hlast : (chain ++ rest).getLast? = some last)
    (hfits : 2 * (chain ++ rest).length + 5 ≤ patience) (htips : TipsRead [] (chain ++ rest))
    (hindexed : ∃ after,
      Chain.tables config.nativeTokenSymbol (chain ++ rest) = .ok after) :
    ∃ behind, performArguments directory now arguments =
        ⟨none, directory.put path (.database behind), now,
          Command.outcomeText (.completed rest.length) ++
            Command.tipText "tip: " (BlockRecord.ofBlock last)⟩ ∧
      KeptIn config.nativeTokenSymbol (chain ++ rest) behind ∧ (rest = [] → behind = tables) := by
  have hne : chain ++ rest ≠ [] := by
    intro hnil
    rw [hnil] at hlast
    exact absurd hlast (by simp)
  rcases replay_on h hlinked hne hfits htips hindexed now with ⟨behind, hreplay, hkept, hsame⟩
  rcases exists_tip hkept hlinked.numbered (htips _ (List.prefix_refl _)) hlast now with
    ⟨tip, htip, htext⟩
  refine ⟨behind, ?_, hkept, hsame⟩
  rw [performArguments_replay hasked, run_replay hconfig hplace hopen hholds, hreplay,
    Command.run_report_ok rfl _ htip, htext, String.empty_append]

/-- A replay without the tip of the database fails and leaves it as it is. -/
theorem performed_lost {other : List Block} {last : Block}
    (h : KeptIn config.nativeTokenSymbol chain tables) (hnumbered : Numbered chain)
    (hfits : 2 * chain.length + 5 ≤ patience) (htips : TipsRead [] chain)
    (hlast : chain.getLast? = some last)
    (hholds : directory.HoldsChain file other) (hlinked : Linked served other)
    (hlost : last.hash ∉ other.map Block.hash) :
    performArguments directory now arguments =
      ⟨some (.failed (.source (.blockNotFound last.hash))),
        directory.put path (.database tables), now, ""⟩ := by
  cases chain using List.reverseRecOn with
  | nil => exact absurd hlast (by simp)
  | append_singleton init tip =>
      rw [List.getLast?_append, List.getLast?_singleton, Option.some_or,
        Option.some.injEq] at hlast
      subst hlast
      rw [performArguments_replay hasked, run_replay hconfig hplace hopen hholds,
        replay_lost h hnumbered hfits htips hlinked hlost now, Command.run_report_error rfl]

end

/-- What a replay into an empty database has found when it has succeeded. -/
theorem performed_succeeded
    (hasked : Request.ofArguments? arguments = some (.run (.replay database file settings)))
    (hplace : DatabasePlace.ofName? database = some (.file path create))
    (hopen : directory.openDatabase? (.file path create) = some .empty)
    (hholds : directory.HoldsChain file chain) (hlinked : Linked served chain) (hne : chain ≠ [])
    (hok : (performArguments directory now arguments).failure = none) :
    ∃ config, (Shell.loadConfig settings).run.run ⟨directory, now, ""⟩ =
        (.ok config, ⟨directory, now, ""⟩) ∧
      2 * chain.length + 5 ≤ patience ∧ TipsRead [] chain ∧
      ∃ after, Chain.tables config.nativeTokenSymbol chain = .ok after := by
  rw [performArguments_replay hasked] at hok
  have hload : ∃ result, (Shell.loadConfig settings).run.run ⟨directory, now, ""⟩ =
      (result, ⟨directory, now, ""⟩) ∧ _ := Shell.exists_loadConfig fun _ _ => ⟨rfl, rfl⟩
  rcases hload with ⟨_ | config, hconfig, _⟩
  · rw [Command.run, Shell.run_bind, hconfig] at hok
    exact absurd hok (by simp)
  · refine ⟨config, hconfig, ?_⟩
    rw [run_replay hconfig hplace hopen hholds] at hok
    rcases houtcome : (replay config ⟨.empty, .ofChain chain, now⟩).outcome with e | outcome
    · rw [Command.run_report_error houtcome] at hok
      exact absurd hok (by simp)
    · exact replay_succeeded hlinked hne houtcome

end

/-! ## Two replays, one after the other -/

namespace Directory

/-- The arguments ask to replay the chain in some file into a database. -/
def Asks (directory : Directory) (arguments : List String) (database : String)
    (settings : Option String) (chain : List Block) : Prop :=
  ∃ file, Request.ofArguments? arguments = some (.run (.replay database file settings)) ∧
    directory.HoldsChain file chain

/-- A database in a file, without rows yet and not where settings are sought. -/
structure FreshDatabase (directory : Directory) (database path : String) (create : Bool)
    (settings : Option String) : Prop where
  place : DatabasePlace.ofName? database = some (.file path create)
  empty : directory.openDatabase? (.file path create) = some .empty
  apart : ∀ file ∈ settings, ¬ parts file <+: parts path

/-- The settings stay where they are when the database is written. -/
theorem FreshDatabase.loadConfig_put {directory : Directory} {database path : String}
    {create : Bool} {settings : Option String} {config : Config} {now : Int64}
    (h : directory.FreshDatabase database path create settings)
    (hconfig : (Shell.loadConfig settings).run.run ⟨directory, now, ""⟩ =
      (.ok config, ⟨directory, now, ""⟩)) (content : FileContent) (later : Int64) :
    (Shell.loadConfig settings).run.run ⟨directory.put path content, later, ""⟩ =
      (.ok config, ⟨directory.put path content, later, ""⟩) := by
  have hsame : ∀ file ∈ settings,
      (directory.put path content).lookup file = directory.lookup file ∧
        (directory.put path content).exists? file = directory.exists? file := by
    intro file hfile
    have hapart := h.apart file hfile
    have hlookup : (directory.put path content).lookup file = directory.lookup file := by
      have hne : parts file ≠ parts path := fun heq => hapart ⟨[], by rw [heq, List.append_nil]⟩
      rw [lookup_put, if_neg hne]
      split
      · next hfolder => rw [lookup, if_pos hfolder]
      · rfl
    exact ⟨hlookup, by rw [exists?, exists?, hlookup, hasFolder_put directory content hapart]⟩
  have hload : ∃ result, (Shell.loadConfig settings).run.run ⟨directory, now, ""⟩ =
      (result, ⟨directory, now, ""⟩) ∧
    (Shell.loadConfig settings).run.run ⟨directory.put path content, later, ""⟩ =
      (result, ⟨directory.put path content, later, ""⟩) := Shell.exists_loadConfig hsame
  rcases hload with ⟨result, hbefore, hafter⟩
  rw [hconfig, Prod.mk.injEq] at hbefore
  rw [hafter, hbefore.1]

/-- Settings that are loaded at one time are loaded at any time. -/
theorem loadConfig_later {directory : Directory} {settings : Option String} {config : Config}
    {now : Int64} (hconfig : (Shell.loadConfig settings).run.run ⟨directory, now, ""⟩ =
      (.ok config, ⟨directory, now, ""⟩)) (later : Int64) :
    (Shell.loadConfig settings).run.run ⟨directory, later, ""⟩ =
      (.ok config, ⟨directory, later, ""⟩) := by
  have hload : ∃ result, (Shell.loadConfig settings).run.run ⟨directory, now, ""⟩ =
      (result, ⟨directory, now, ""⟩) ∧
    (Shell.loadConfig settings).run.run ⟨directory, later, ""⟩ =
      (result, ⟨directory, later, ""⟩) := Shell.exists_loadConfig fun _ _ => ⟨rfl, rfl⟩
  rcases hload with ⟨result, hbefore, hafter⟩
  rw [hconfig, Prod.mk.injEq] at hbefore
  rw [hafter, hbefore.1]

end Directory

/-- Two chains are replayed into one database that is empty before, each of which can be
    replayed into it by itself. If the first begins the second, the second replay succeeds with
    a step for each block that the second has more, and leaves what replaying the second by
    itself leaves, but for the ledger; replaying a chain again leaves everything as it is. If
    the second does not have the last block of the first, the second replay says that it has not
    found that block, and leaves everything as it is. If a hash names one block in both, there
    is no third case. -/
theorem replay_into_database {directory : Directory} {database path : String} {create : Bool}
    {settings : Option String} {argumentsA argumentsB : List String} {a b : List Block}
    {servedA servedB : String → Option Block}
    (hfresh : directory.FreshDatabase database path create settings)
    (hasksA : directory.Asks argumentsA database settings a)
    (hasksB : directory.Asks argumentsB database settings b)
    (hlinkedA : Linked servedA a) (hlinkedB : Linked servedB b) (hneA : a ≠ []) (hneB : b ≠ [])
    (nowA nowB now : Int64)
    (hfirst : (performArguments directory nowA argumentsA).failure = none)
    (hsingle : (performArguments directory now argumentsB).failure = none) :
    let place := DatabasePlace.file path create
    let first := (performArguments directory nowA argumentsA).console.directory
    let second := performArguments first nowB argumentsB
    let single := (performArguments directory now argumentsB).console.directory
    ∃ held alone : TableStore,
      first.openDatabase? place = some held ∧ single.openDatabase? place = some alone ∧
      (a <+: b →
        second.failure = none ∧
        second.console.printed = Command.outcomeText (.completed (b.length - a.length)) ++
          Command.tipText "tip: " (BlockRecord.ofBlock (b.getLast hneB)) ∧
        ∃ tables, second.console.directory.openDatabase? place = some tables ∧
          tables.outside = alone.outside ∧ (a = b → tables = held)) ∧
      ((a.getLast hneA).hash ∉ b.map Block.hash →
        second.failure = some (.failed (.source (.blockNotFound (a.getLast hneA).hash))) ∧
        second.console.directory.openDatabase? place = some held) ∧
      ((∀ x ∈ a, ∀ y ∈ b, x.hash = y.hash → x = y) →
        a <+: b ∨ (a.getLast hneA).hash ∉ b.map Block.hash) := by
  intro place first second single
  rcases hasksA with ⟨fileA, haskedA, hholdsA⟩
  rcases hasksB with ⟨fileB, haskedB, hholdsB⟩
  have hlastA : a.getLast? = some (a.getLast hneA) := List.getLast?_eq_some_getLast hneA
  have hlastB : b.getLast? = some (b.getLast hneB) := List.getLast?_eq_some_getLast hneB
  have hpath := Directory.not_endsInFolder_of_open hfresh.empty
  rcases performed_succeeded haskedA hfresh.place hfresh.empty hholdsA hlinkedA hneA hfirst with
    ⟨config, hconfig, hfitsA, htipsA, hindexedA⟩
  rcases performed_succeeded haskedB hfresh.place hfresh.empty hholdsB hlinkedB hneB hsingle with
    ⟨config', hconfig', hfitsB, htipsB, hindexedB⟩
  have hsettings : config' = config := by
    have hlater := Directory.loadConfig_later hconfig now
    rw [hconfig', Prod.mk.injEq] at hlater
    exact Except.ok.inj hlater.1
  subst hsettings
  have hempty := KeptIn.empty config'.nativeTokenSymbol
  -- Each replay by itself goes on from an empty database.
  rcases performed_on haskedA hconfig hfresh.place hfresh.empty hempty hholdsA hlinkedA hlastA
    hfitsA htipsA hindexedA with ⟨held, hperformedA, hkeptA, _⟩
  rcases performed_on haskedB hconfig' hfresh.place hfresh.empty hempty hholdsB hlinkedB hlastB
    hfitsB htipsB hindexedB with ⟨alone, hperformedB, hkeptB, _⟩
  have hfirst' : first = directory.put path (.database held) := by
    simp only [first, hperformedA]
  have hsingle' : single = directory.put path (.database alone) := by
    simp only [single, hperformedB]
  have hopen : first.openDatabase? place = some held := by
    rw [hfirst']
    exact directory.openDatabase?_put create hpath held
  have hconfigB : (Shell.loadConfig settings).run.run ⟨first, nowB, ""⟩ =
      (.ok config', ⟨first, nowB, ""⟩) := by
    rw [hfirst']
    exact hfresh.loadConfig_put hconfig (.database held) nowB
  have hholds : first.HoldsChain fileB b := by
    rw [hfirst']
    exact hholdsB.put (hholdsB.parts_ne hfresh.empty) (.database held)
  refine ⟨held, alone, hopen, ?_, ?_, ?_, fun hnames => ?_⟩
  · rw [hsingle']
    exact directory.openDatabase?_put create hpath alone
  · rintro ⟨rest, rfl⟩
    rcases performed_on haskedB hconfigB hfresh.place hopen hkeptA hholds hlinkedB hlastB hfitsB
      htipsB hindexedB with ⟨tables, hperformed, hkept, hsame⟩
    have hsecond : second = _ := hperformed
    refine ⟨by rw [hsecond], ?_, tables, ?_, ?_, fun hab => ?_⟩
    · rw [hsecond, List.length_append, Nat.add_sub_cancel_left]
    · rw [hsecond]
      exact first.openDatabase?_put create hpath tables
    · exact Except.ok.inj (hkept.rows.symm.trans hkeptB.rows)
    · exact hsame (List.self_eq_append_right.mp hab)
  · intro hlost
    have hsecond : second = _ := performed_lost haskedB hconfigB hfresh.place hopen hkeptA
      hlinkedA.numbered hfitsA htipsA hlastA hholds hlinkedB hlost
    rw [hsecond]
    exact ⟨rfl, first.openDatabase?_put create hpath held⟩
  · rcases hlinkedA.prefix_or_lost hlinkedB hnames with hprefix | hlost
    · exact Or.inl hprefix
    · exact Or.inr (hlost _ hlastA)

/-! ## Files with a fork -/

theorem fromUTF8?_toUTF8 (text : String) : String.fromUTF8? text.toUTF8 = some text := by
  simp only [String.fromUTF8?]
  rw [dif_pos (by simpa using text.isValidUTF8)]
  rfl

namespace Fork

/-- The document of a chain. -/
def document (chain : List Block) : Json := .array (chain.map Block.toJson)

/-- A file for the block below the fork, and one for each branch. -/
def directory : Directory where
  files :=
    [(["g.json"], .bytes (document [root]).compact.toUTF8),
      (["a.json"], .bytes (document [root, left]).compact.toUTF8),
      (["b.json"], .bytes (document [root, right]).compact.toUTF8)]
  folders := []

/-- Arguments that ask to replay the chain in a file. -/
def arguments (file : String) : List String := ["replay", "--db", "m.db", "--blocks", file]

/-- The chains are read from their texts. -/
theorem chainOfText?_document :
    ∀ chain ∈ [[root], [root, left], [root, right]],
      Shell.chainOfText? (document chain).compact = some chain := by
  have hwithin : ∀ chain ∈ [[root], [root, left], [root, right]],
      (document chain).Within 128 := by decide +kernel
  have hread : ∀ chain ∈ [[root], [root, left], [root, right]],
      ((document chain).reread.bind fun value => do
        let _ ← (Json.asList Block.read value).toOption
        (Json.asList Block.read value.canonical).toOption) = some chain := by decide +kernel
  intro chain hchain
  rw [Shell.chainOfText?, Json.parse?_compact (hwithin chain hchain)]
  exact hread chain hchain

/-- A name without folders is its only part. -/
theorem parts_eq : ∀ file ∈ ["m.db", "g.json", "a.json", "b.json"],
    Directory.parts file = [file] := by
  have hwhole : ∀ file ∈ ["m.db", "g.json", "a.json", "b.json"],
      Text.isWhole file "/" file.length 0 = true ∧
        (if file.startsWith "/" then "" :: [file].filter (fun part => part != "" && part != ".")
          else [file].filter fun part => part != "" && part != ".") = [file] := by decide +kernel
  intro file hfile
  rcases hwhole file hfile with ⟨hsplit, hparts⟩
  rw [Directory.parts, Text.splitOn_of_isWhole (by decide) file.length hsplit]
  exact hparts

/-- The database is in a file next to the chains. -/
theorem ofName?_eq : DatabasePlace.ofName? "m.db" = some (.file "m.db" true) := by
  have htext : DatabasePlace.dropAll "sqlite:".toList ("m.db".toList ++ "?mode=rwc".toList).length
      (DatabasePlace.dropAll ("sqlite:".toList ++ ['/', '/'])
        ("m.db".toList ++ "?mode=rwc".toList).length
        ("m.db".toList ++ "?mode=rwc".toList)) = "m.db?mode=rwc".toList := by decide +kernel
  have hparameters : String.ofList (("m.db?mode=rwc".toList.dropWhile fun c => c != '?').drop 1)
      = "mode=rwc" := by decide +kernel
  have hsplit : "mode=rwc".splitOn "&" = ["mode=rwc"] :=
    Text.splitOn_of_isWhole (by decide) 8 (by decide +kernel)
  have hlocator : DatabasePlace.ofName? "m.db"
      = DatabasePlace.ofLocator? "m.db?mode=rwc".toList := by
    unfold DatabasePlace.ofName?
    rw [if_neg (by decide +kernel)]
    exact congrArg DatabasePlace.ofLocator? htext
  rw [hlocator, DatabasePlace.ofLocator?, hparameters]
  simp only [hsplit]
  decide +kernel

theorem fresh : directory.FreshDatabase "m.db" "m.db" true none where
  place := ofName?_eq
  empty := by
    have hparts := parts_eq "m.db" (by simp)
    rw [Directory.openDatabase?, Directory.lookup, Directory.canHold, hparts]
    decide +kernel
  apart := by simp

/-- Whoever names one of the files asks to replay its chain. -/
theorem asks : ∀ asked ∈ [("g.json", [root]), ("a.json", [root, left]), ("b.json", [root, right])],
    directory.Asks (arguments asked.1) "m.db" none asked.2 := by
  have hasked : ∀ asked ∈
      [("g.json", [root]), ("a.json", [root, left]), ("b.json", [root, right])],
      Request.ofArguments? (arguments asked.1) = some (.run (.replay "m.db" asked.1 none)) ∧
        Directory.endsInFolder asked.1 = false ∧
        asked.1 ∈ ["m.db", "g.json", "a.json", "b.json"] ∧
        asked.2 ∈ [[root], [root, left], [root, right]] := by decide +kernel
  intro asked hmem
  rcases hasked asked hmem with ⟨hrequest, hfolder, hfile, hchain⟩
  refine ⟨asked.1, hrequest, _, _, ?_, fromUTF8?_toUTF8 _, chainOfText?_document _ hchain⟩
  rw [Directory.lookup, hfolder, parts_eq asked.1 hfile]
  simp only [List.mem_cons, List.not_mem_nil, or_false] at hmem
  rcases hmem with rfl | rfl | rfl
  · rfl
  · rfl
  · rfl

theorem linked_root : Linked served [root] :=
  Linked.nil.snoc rfl rfl (by simp)

theorem linked_left : Linked served [root, left] :=
  linked_root.snoc rfl rfl fun _ hparent => Option.some.inj hparent ▸ rfl

theorem linked_right : Linked served [root, right] :=
  linked_root.snoc rfl rfl fun _ hparent => Option.some.inj hparent ▸ rfl

/-- Every branch can be indexed, and its tips can be read. -/
theorem indexed : ∀ chain ∈ [[root], [root, left], [root, right]],
    TipsRead [] chain ∧ ∃ after, Chain.tables "DFI" chain = .ok after := by
  have hread : ∀ chain ∈ [[root], [root, left], [root, right]],
      ∀ block ∈ chain, block.difficulty.reread.isSome = true := by decide +kernel
  have hindexed : ∀ chain ∈ [[root], [root, left], [root, right]],
      (Chain.tables "DFI" chain).toOption.isSome = true := by decide +kernel
  intro chain hchain
  refine ⟨tipsRead_of_difficulties (hread chain hchain), ?_⟩
  have hsome := hindexed chain hchain
  rcases htables : Chain.tables "DFI" chain with e | after
  · rw [htables] at hsome
    exact absurd hsome (by simp [Except.toOption])
  · exact ⟨after, rfl⟩

/-- Each of the chains can be replayed into the database by itself. -/
theorem performed (file : String) {chain : List Block} {last : Block}
    (hmem : (file, chain) ∈ [("g.json", [root]), ("a.json", [root, left]),
      ("b.json", [root, right])])
    (hlinked : Linked served chain) (hlast : chain.getLast? = some last) :
    ∃ behind printed, performArguments directory 0 (arguments file) =
        ⟨none, directory.put "m.db" (.database behind), 0, printed⟩ ∧
      KeptIn "DFI" chain behind := by
  have hbranch : ∀ asked ∈
      [("g.json", [root]), ("a.json", [root, left]), ("b.json", [root, right])],
      asked.2 ∈ [[root], [root, left], [root, right]] ∧
        2 * asked.2.length + 5 ≤ patience := by decide +kernel
  rcases hbranch _ hmem with ⟨hchain, hfits⟩
  rcases indexed chain hchain with ⟨htips, hindexed⟩
  rcases asks _ hmem with ⟨named, hasked, hholds⟩
  have hconfig : (Shell.loadConfig none).run.run ⟨directory, 0, ""⟩ =
      (.ok Config.standard, ⟨directory, 0, ""⟩) := rfl
  rcases performed_on hasked hconfig fresh.place fresh.empty (KeptIn.empty "DFI") hholds hlinked
    hlast hfits htips hindexed with ⟨behind, hperformed, hkept, _⟩
  exact ⟨behind, _, hperformed, hkept⟩

end Fork

/-- The left branch goes on from the block below it. -/
theorem replay_into_database_extended :
    let first := (performArguments Fork.directory 0 (Fork.arguments "g.json")).console.directory
    let second := performArguments first 0 (Fork.arguments "a.json")
    let single := (performArguments Fork.directory 0 (Fork.arguments "a.json")).console.directory
    second.failure = none ∧
      second.console.printed = "replay complete: 1 steps\ntip: a at height 1\n" ∧
      ∃ tables alone : TableStore,
        second.console.directory.openDatabase? (.file "m.db" true) = some tables ∧
        single.openDatabase? (.file "m.db" true) = some alone ∧
        tables.outside = alone.outside := by
  intro first second single
  rcases Fork.performed "g.json" (by simp) Fork.linked_root rfl with ⟨_, _, hroot, _⟩
  rcases Fork.performed "a.json" (by simp) Fork.linked_left rfl with ⟨_, _, hleft, _⟩
  rcases replay_into_database Fork.fresh (Fork.asks ("g.json", [Fork.root]) (by simp))
      (Fork.asks ("a.json", [Fork.root, Fork.left]) (by simp)) Fork.linked_root Fork.linked_left
      (by simp) (by simp) 0 0 0 (by rw [hroot]) (by rw [hleft]) with
    ⟨held, alone, _, halone, hextends, _⟩
  rcases hextends ⟨[Fork.left], rfl⟩ with ⟨hfailure, hprinted, tables, htables, hsame, _⟩
  exact ⟨hfailure, hprinted.trans (by decide +kernel), tables, alone, htables, halone, hsame⟩

/-- Each branch is well linked, has ids of its own and can be replayed into an empty database,
    but when the left one has been replayed the right one cannot be: the tip would have to be
    undone, and the file of the right branch does not have it. -/
theorem replay_of_fork_fails :
    (Linked Fork.served [Fork.root, Fork.left] ∧ (txids [Fork.root, Fork.left]).Nodup) ∧
      (Linked Fork.served [Fork.root, Fork.right] ∧ (txids [Fork.root, Fork.right]).Nodup) ∧
      Fork.directory.FreshDatabase "m.db" "m.db" true none ∧
      Fork.directory.Asks (Fork.arguments "a.json") "m.db" none [Fork.root, Fork.left] ∧
      Fork.directory.Asks (Fork.arguments "b.json") "m.db" none [Fork.root, Fork.right] ∧
      (performArguments Fork.directory 0 (Fork.arguments "a.json")).failure = none ∧
      (performArguments Fork.directory 0 (Fork.arguments "b.json")).failure = none ∧
      (performArguments (performArguments Fork.directory 0
        (Fork.arguments "a.json")).console.directory 0 (Fork.arguments "b.json")).failure =
          some (.failed (.source (.blockNotFound "a"))) := by
  have hasksA := Fork.asks ("a.json", [Fork.root, Fork.left]) (by simp)
  have hasksB := Fork.asks ("b.json", [Fork.root, Fork.right]) (by simp)
  rcases Fork.performed "a.json" (by simp) Fork.linked_left rfl with
    ⟨held, _, hleft, hkept⟩
  rcases Fork.performed "b.json" (by simp) Fork.linked_right rfl with ⟨_, _, hright, _⟩
  refine ⟨⟨Fork.linked_left, by decide⟩, ⟨Fork.linked_right, by decide⟩, Fork.fresh, hasksA,
    hasksB, by rw [hleft], by rw [hright], ?_⟩
  rcases hasksB with ⟨file, hasked, hholds⟩
  have hopen := Fork.directory.openDatabase?_put true
    (Directory.not_endsInFolder_of_open Fork.fresh.empty) held
  have hconfig : (Shell.loadConfig none).run.run ⟨Fork.directory, 0, ""⟩ =
      (.ok Config.standard, ⟨Fork.directory, 0, ""⟩) := rfl
  rw [hleft, performed_lost hasked (Fork.fresh.loadConfig_put hconfig _ 0) Fork.fresh.place hopen
    hkept Fork.linked_left.numbered (by decide) (Fork.indexed _ (by simp)).1 rfl
    (hholds.put (hholds.parts_ne Fork.fresh.empty) _) Fork.linked_right (by decide)]
  rfl

end ChainIndex
