import Gafam.Relay.CustomTools
import Gafam.Sandbox.Proofs.ShellProofs

/-!
# The scan registers what stands in `/files`

The server looks at the path of a request only, so that the listing is that of `/files`, and the tool of an
id is that of the last script in it with the id. A script of `/files/tools` is registered as it should be
if and only if this one is read as it, or there is none and it was registered before.
-/

namespace Gafam.Relay

open Gafam.Go Gafam.Karaka Gafam.Python Gafam.Sandbox

/-! ## The listing -/

theorem entriesOf_eq_some {root : Sandbox.Node} {path : PyString} {entries : List (GoString × Sandbox.Node)} :
    entriesOf root path = some entries ↔ ∃ st, nodeAt root path = some (.dir st entries) := by
  unfold entriesOf
  constructor
  · intro h
    split at h
    · next st entries' hnode =>
      obtain rfl := Option.some.inj h
      exact ⟨st, hnode⟩
    · exact absurd h (Option.some_ne_none _).symm
  · rintro ⟨st, hnode⟩
    rw [hnode]

/-- The query does not take part: the answer lists `/files`. -/
theorem doGet_listTarget {root : Sandbox.Node} {entries : List (GoString × Sandbox.Node)}
    (hfiles : entriesOf root "/sandbox/files" = some entries) (elsewhere : PyString → Option Sandbox.Answer) :
    doGet root elsewhere listTarget = ((sortedEntries entries).mapM entryJson).map fun l =>
      .json 200 (.obj [(str "path", .str (fsencode "/files")), (str "entries", .arr l)]) := by
  have hpath : urlPath listTarget = py "/files" := by decide
  have hsafe : safePath (py "/files") = some (py "/sandbox/files") := by decide
  have hhandler : ¬ (py "/files" = py "/storage" ∨ py "/files" = py "/tree") := by decide
  obtain ⟨st, hnode⟩ := entriesOf_eq_some.1 hfiles
  simp only [doGet, hpath, hsafe, if_neg hhandler, hnode]

/-- The entry of the answer, as it is decoded. -/
def entryFile (e : GoString × Sandbox.Node) : ToolFile := ⟨jsonText e.1, if e.2.isDir then "dir" else "file"⟩

theorem decode_entryJson {e : GoString × Sandbox.Node} {v : JsonTree} (h : entryJson e = some v) :
    ToolFile.decode ⟨[], []⟩ v = some (entryFile e) := by
  have hnameType : isField "name" (str "type") = false := by decide
  have hnameSize : isField "name" (str "size") = false := by decide
  have hnameModified : isField "name" (str "modified") = false := by decide
  have htypeSize : isField "type" (str "size") = false := by decide
  have htypeModified : isField "type" (str "modified") = false := by decide
  have hname : isField "name" (str "name") = true := by decide
  have htype : isField "type" (str "type") = true := by decide
  obtain ⟨st, -, rfl⟩ := Option.map_eq_some_iff.1 h
  simp [ToolFile.decode, ToolFile.member, textField, entryFile, hnameType, hnameSize, hnameModified,
    htypeSize, htypeModified, hname, htype]

theorem mapM_entryJson_cons {e : GoString × Sandbox.Node} {l : List (GoString × Sandbox.Node)} {js : List JsonTree} :
    (e :: l).mapM entryJson = some js ↔
      ∃ v, entryJson e = some v ∧ ∃ vs, l.mapM entryJson = some vs ∧ v :: vs = js := by
  simp [List.mapM_cons, Option.bind_eq_some_iff]

theorem decodeToolFiles_entries {l : List (GoString × Sandbox.Node)} {js : List JsonTree}
    (h : l.mapM entryJson = some js) :
    decodeToolFiles js [] = some (l.map entryFile) ∧ js.length = l.length := by
  induction l generalizing js with
  | nil =>
    obtain rfl : [] = js := by simpa using h
    exact ⟨rfl, rfl⟩
  | cons e l ih =>
    obtain ⟨v, hv, vs, hvs, rfl⟩ := mapM_entryJson_cons.1 h
    obtain ⟨hdecode, hlength⟩ := ih hvs
    simp [decodeToolFiles, decode_entryJson hv, hdecode, hlength]

/-- The listing that the server writes is the listing that the relay reads. -/
theorem decodeListing_entries {l : List (GoString × Sandbox.Node)} {js : List JsonTree} {path : GoString}
    (h : l.mapM entryJson = some js) :
    decodeListing (.obj [(str "path", .str path), (str "entries", .arr js)]) = some (l.map entryFile) := by
  have hpath : isField "entries" (str "path") = false := by decide
  have hentries : isField "entries" (str "entries") = true := by decide
  obtain ⟨hdecode, hlength⟩ := decodeToolFiles_entries h
  cases js with
  | nil =>
    obtain rfl := List.length_eq_zero_iff.1 hlength.symm
    simp [decodeListing, listingMember, hpath, hentries]
  | cons v js =>
    have htake : (l.map entryFile).take (v :: js).length = l.map entryFile := by
      rw [hlength, ← List.length_map entryFile, List.take_length]
    simpa [decodeListing, listingMember, hpath, hentries, hdecode] using htake

theorem mapM_entryJson (l : List (GoString × Sandbox.Node)) :
    (l.mapM entryJson).isSome = l.all fun e => e.2.stat.isSome := by
  induction l with
  | nil => rfl
  | cons e l ih =>
    rw [List.all_cons, ← ih, List.mapM_cons]
    cases hstat : e.2.stat <;> cases hrest : l.mapM entryJson <;> simp [entryJson, hstat]

theorem sortedEntries_all (entries : List (GoString × Sandbox.Node)) (p : GoString × Sandbox.Node → Bool) :
    (sortedEntries entries).all p = entries.all p :=
  (List.perm_insertionSort _ entries).all_eq

/-- What the scan reads, if `/files` can be listed. -/
theorem decodeAnswer_doGet {root : Sandbox.Node} {entries : List (GoString × Sandbox.Node)}
    (hfiles : entriesOf root "/sandbox/files" = some entries) (elsewhere : PyString → Option Sandbox.Answer) :
    ((doGet root elsewhere listTarget).bind decodeAnswer) =
      if entries.all fun e => e.2.stat.isSome then some ((sortedEntries entries).map entryFile)
      else none := by
  rw [doGet_listTarget hfiles]
  have hsome := mapM_entryJson (sortedEntries entries)
  rw [sortedEntries_all] at hsome
  cases hjs : (sortedEntries entries).mapM entryJson with
  | none =>
    rw [hjs] at hsome
    rw [← hsome]
    rfl
  | some js =>
    rw [hjs] at hsome
    rw [← hsome]
    exact decodeListing_entries hjs

/-! ## The table after the scan -/

/-- The entries that the loop does not pass over. -/
def ToolFile.isTool (e : ToolFile) : Bool := e.type == str "file" && isScript e.name

theorem toolOf_of_isScript {name : GoString} (h : isScript name = true) :
    toolOf name = some (toolID name, runnerOf name) ∧ isSafeName name = true := by
  rw [isScript, Bool.and_eq_true] at h
  obtain ⟨p, hp⟩ := Option.isSome_iff_exists.1 h.1
  exact ⟨by rw [toolID, runnerOf, hp]; rfl, h.2⟩

theorem registerEntry_tool (firstRead : GoString → Option GoString) {table : ToolTable} {e : ToolFile}
    (h : e.isTool = true) :
    registerEntry firstRead table e =
      table.insert (toolID e.name) (scriptTool firstRead e.name (toolID e.name) (runnerOf e.name)) := by
  rw [ToolFile.isTool, Bool.and_eq_true, beq_iff_eq] at h
  obtain ⟨htool, hsafe⟩ := toolOf_of_isScript h.2
  simp [registerEntry, h.1, htool, hsafe]

theorem registerEntry_other (firstRead : GoString → Option GoString) {table : ToolTable} {e : ToolFile}
    (h : e.isTool = false) : registerEntry firstRead table e = table := by
  unfold registerEntry
  split
  · rfl
  · next htype =>
    split
    · rfl
    · next p hp =>
      rw [if_neg]
      intro hsafe
      simp [ToolFile.isTool, isScript, not_not.1 htype, hp, hsafe] at h

/-- The tool of an id is that of the last script with it, else what it was before. -/
theorem lookup_registerEntries (firstRead : GoString → Option GoString) (files : List ToolFile)
    (table : ToolTable) (id : GoString) :
    (files.foldl (registerEntry firstRead) table).lookup id =
      ((((files.filter ToolFile.isTool).map ToolFile.name).reverse.find? fun name =>
        toolID name == id).map fun name => scriptTool firstRead name id (runnerOf name)).or
          (table.lookup id) := by
  induction files using List.reverseRecOn with
  | nil => rfl
  | append_singleton files e ih =>
    rw [List.foldl_append, List.foldl_cons, List.foldl_nil, List.filter_append, List.map_append,
      List.reverse_append]
    cases htool : e.isTool with
    | false =>
      rw [registerEntry_other firstRead htool, ih]
      simp [htool]
    | true =>
      rw [registerEntry_tool firstRead htool]
      by_cases hid : toolID e.name = id
      · subst hid
        simp [htool]
      · rw [AList.lookup_insert_ne (Ne.symm hid), ih]
        simp [htool, hid]

theorem names_entryFile (l : List (GoString × Sandbox.Node)) :
    ((l.map entryFile).filter ToolFile.isTool).map ToolFile.name =
      ((l.filter fun e => !e.2.isDir).map fun e => jsonText e.1).filter isScript := by
  have hfile : (str "file" == str "file") = true := by decide
  have hdir : (str "dir" == str "file") = false := by decide
  induction l with
  | nil => rfl
  | cons e l ih =>
    cases hkind : e.2.isDir with
    | true => simpa [ToolFile.isTool, entryFile, hkind, hdir] using ih
    | false =>
      cases hscript : isScript (jsonText e.1) with
      | true => simpa [ToolFile.isTool, entryFile, hkind, hfile, hscript] using ih
      | false => simpa [ToolFile.isTool, entryFile, hkind, hfile, hscript] using ih

/-- A scan gives up or overlays the table with the scripts of `/files`. -/
theorem rescan_cases {root : Sandbox.Node} {entries : List (GoString × Sandbox.Node)}
    (hfiles : entriesOf root "/sandbox/files" = some entries) (elsewhere : PyString → Option Sandbox.Answer)
    (firstRead : GoString → Option GoString) (table : ToolTable) :
    (outerScripts root = none ∧
        rescanCustomTools firstRead (doGet root elsewhere listTarget) table = none) ∨
      ∃ outer after, outerScripts root = some outer ∧
        rescanCustomTools firstRead (doGet root elsewhere listTarget) table = some after ∧
        ∀ id, after.lookup id = ((outer.reverse.find? fun name => toolID name == id).map fun name =>
          scriptTool firstRead name id (runnerOf name)).or (table.lookup id) := by
  have hdecode := decodeAnswer_doGet hfiles elsewhere
  have hrescan : rescanCustomTools firstRead (doGet root elsewhere listTarget) table =
      ((doGet root elsewhere listTarget).bind decodeAnswer).map fun files =>
        files.foldl (registerEntry firstRead) table := by
    unfold rescanCustomTools
    cases doGet root elsewhere listTarget <;> rfl
  rw [hrescan, hdecode]
  by_cases hall : (entries.all fun e => e.2.stat.isSome) = true
  · right
    refine ⟨(((sortedEntries entries).filter fun e => !e.2.isDir).map fun e => jsonText e.1).filter isScript,
      ((sortedEntries entries).map entryFile).foldl (registerEntry firstRead) table, ?_, ?_, ?_⟩
    · rw [outerScripts, hfiles]
      exact if_pos hall
    · rw [if_pos hall]
      rfl
    · intro id
      rw [lookup_registerEntries, names_entryFile]
  · left
    refine ⟨?_, ?_⟩
    · rw [outerScripts, hfiles]
      exact if_neg hall
    · rw [if_neg hall]
      rfl

/-! ## Running a script -/

variable {expand : GoString → List GoString}

theorem base64Encode_wordBytes (s : GoString) : ∀ b ∈ base64Encode s, isWordByte b = true :=
  base64Encode_forall (by decide) (by decide) s

/-- In front of its last command, the line of a tool has nothing that changes how that one is read. -/
theorem runsFile_scriptCommand {name script input : GoString} (hinput : input ≠ []) :
    RunsFile expand (runnerOf script) (toolsDir ++ script) (scriptCommand (runnerOf name) name input) ↔
      ReadsAs expand name script := by
  have hline : scriptCommand (runnerOf name) name input =
      (str "echo " ++ base64Encode input ++ str " ") ++
        Sandbox.bar :: (str " base64 -d " ++
          Sandbox.bar :: 0x20 :: (runnerOf name ++ str " " ++ toolsDir ++ name)) := by
    have hmiddle : str " | base64 -d | " =
        str " " ++ Sandbox.bar :: (str " base64 -d " ++ Sandbox.bar :: [0x20]) := by
      decide
    rw [scriptCommand, hmiddle]
    simp
  have hdecode : pipeline (str " base64 -d ") = some [[str "base64", str "-d"]] := by decide
  have hecho : pipeline (str "echo " ++ base64Encode input ++ str " ") =
      some [[str "echo", base64Encode input]] := by
    have hcall := pipeline_call (v := "echo") (by decide) (forall_of_all (by decide)) (by decide) (by decide)
      (base64Encode_ne_nil hinput) (base64Encode_wordBytes input) (Or.inr rfl)
    rwa [show str "echo " = str "echo" ++ [0x20] by decide, List.append_assoc, List.append_assoc]
  rw [hline, runsFile_bar hecho, runsFile_bar hdecode, runsFile_space, ReadsAs]

/-- A script whose name is made of letters, digits and a few signs is read as itself. -/
theorem readsAs_self (hkeep : KeepsWords expand) {name : GoString} (hscript : isScript name = true)
    (hname : ∀ b ∈ name, isWordByte b = true) : ReadsAs expand name name := by
  have hrunner : runnerOf name = str "bash" ∨ runnerOf name = str "python3" := by
    obtain ⟨htool, -⟩ := toolOf_of_isScript hscript
    unfold toolOf at htool
    split_ifs at htool
    · exact Or.inl (Prod.mk.inj (Option.some.inj htool)).2.symm
    · exact Or.inr (Prod.mk.inj (Option.some.inj htool)).2.symm
  have hdir : ∀ b ∈ toolsDir, isWordByte b = true := forall_of_all (by decide)
  have hpath : ∀ b ∈ toolsDir ++ name, isWordByte b = true := fun b hb =>
    (List.mem_append.1 hb).elim (hdir b) (hname b)
  have hne : toolsDir ++ name ≠ [] := List.append_ne_nil_of_left_ne_nil (by decide) _
  have hwords : runnerOf name ≠ [] ∧ (∀ b ∈ runnerOf name, isWordByte b = true) ∧
      runnerOf name ∉ reservedWords ∧ (0x3D : UInt8) ∉ runnerOf name := by
    rcases hrunner with h | h <;> rw [h] <;> exact ⟨by decide, forall_of_all (by decide), by decide, by decide⟩
  obtain ⟨hne', hbytes, hplain, hassign⟩ := hwords
  have hcall := pipeline_call hne' hbytes hplain hassign hne hpath (Or.inl rfl)
  refine ⟨[[runnerOf name, toolsDir ++ name]], [runnerOf name, toolsDir ++ name], ?_, rfl, ?_⟩
  · rw [List.append_assoc, List.append_assoc, ← hcall]
    simp [show str " " = [0x20] by decide]
  · have hrunnerWord := hkeep _ (List.all_eq_true.2 hbytes)
    have hpathWord := hkeep _ (List.all_eq_true.2 hpath)
    rw [List.flatMap_cons, List.flatMap_singleton, hrunnerWord, hpathWord]
    exact List.prefix_rfl

/-- The tool of a script runs another one if its name is read so. -/
theorem runsScript_scriptTool (firstRead : GoString → Option GoString) (id name script : GoString) :
    RunsScript expand (scriptTool firstRead name id (runnerOf name)) script ↔
      ReadsAs expand name script := by
  constructor
  · intro h
    obtain ⟨req, hreq, hruns⟩ := h ∅
    obtain rfl := Option.some.inj hreq
    exact (runsFile_scriptCommand (by decide)).1 hruns
  · intro h params
    refine ⟨_, rfl, (runsFile_scriptCommand ?_).2 h⟩
    split_ifs with hnil
    · decide
    · exact hnil

theorem path_inj {script script' line : GoString}
    (h : RunsFile expand (runnerOf script) (toolsDir ++ script) line)
    (h' : RunsFile expand (runnerOf script') (toolsDir ++ script') line) : script = script' := by
  obtain ⟨cmds, last, hcmds, hlast, hruns⟩ := h
  obtain ⟨cmds', last', hcmds', hlast', hruns'⟩ := h'
  obtain rfl := Option.some.inj (hcmds.symm.trans hcmds')
  obtain rfl := Option.some.inj (hlast.symm.trans hlast')
  have heq := (List.prefix_of_prefix_length_le hruns hruns' le_rfl).eq_of_length rfl
  obtain ⟨-, hscript⟩ : runnerOf script = runnerOf script' ∧ script = script' := by simpa using heq
  exact hscript

/-- A tool runs one script. -/
theorem RunsScript.unique {t : CustomTool} {script script' : GoString} (h : RunsScript expand t script)
    (h' : RunsScript expand t script') : script = script' := by
  obtain ⟨req, hreq, hruns⟩ := h ∅
  obtain ⟨req', hreq', hruns'⟩ := h' ∅
  obtain rfl := Option.some.inj (hreq.symm.trans hreq')
  exact path_inj hruns hruns'

/-! ## The scripts that are registered -/

theorem overlaid_iff {outer : List GoString} {table after : ToolTable}
    {firstRead : GoString → Option GoString}
    (hafter : ∀ id, after.lookup id = ((outer.reverse.find? fun name => toolID name == id).map fun name =>
      scriptTool firstRead name id (runnerOf name)).or (table.lookup id)) (script : GoString) :
    (∃ t, after.lookup (toolID script) = some t ∧ RunsScript expand t script) ↔
      Overlaid expand outer table script := by
  unfold Overlaid
  rw [hafter]
  cases hlast : outer.reverse.find? fun name => toolID name == toolID script with
  | none => rfl
  | some name =>
    simp only [Option.map_some, Option.some_or, Option.some.injEq]
    constructor
    · rintro ⟨t, rfl, hruns⟩
      exact (runsScript_scriptTool firstRead _ name script).1 hruns
    · intro hreads
      exact ⟨_, rfl, (runsScript_scriptTool firstRead _ name script).2 hreads⟩

/-- Tools that run their own scripts have ids of their own. -/
theorem scriptsRegistered_iff {root : Sandbox.Node} {after : ToolTable} :
    ScriptsRegistered expand root after ↔
      ∀ s ∈ toolScripts root, ∃ t, after.lookup (toolID s) = some t ∧ RunsScript expand t s := by
  constructor
  · intro h
    exact h.1
  · intro h
    refine ⟨h, ?_⟩
    intro s hs s' hs' hid
    obtain ⟨t, ht, hruns⟩ := h s hs
    obtain ⟨t', ht', hruns'⟩ := h s' hs'
    rw [← hid, ht] at ht'
    obtain rfl := Option.some.inj ht'
    exact hruns.unique hruns'

/-- What lies below something lies in a directory. -/
theorem find_dir {root n : Sandbox.Node} {ws : List GoString} {w : GoString} (h : root.find (ws ++ [w]) = some n) :
    ∃ st entries, root.find ws = some (.dir st entries) := by
  induction ws generalizing root with
  | nil =>
    cases root with
    | dir st entries => exact ⟨st, entries, rfl⟩
    | file st content => exact absurd h (Option.some_ne_none _).symm
    | special st => exact absurd h (Option.some_ne_none _).symm
    | dangling => exact absurd h (Option.some_ne_none _).symm
  | cons v ws ih =>
    cases root with
    | dir st entries =>
      rw [List.cons_append, Sandbox.Node.find] at h
      rw [Sandbox.Node.find]
      cases hv : entries.lookup v with
      | none =>
        rw [hv] at h
        exact absurd h (Option.some_ne_none _).symm
      | some m =>
        rw [hv] at h
        exact ih h
    | file st content => exact absurd h (Option.some_ne_none _).symm
    | special st => exact absurd h (Option.some_ne_none _).symm
    | dangling => exact absurd h (Option.some_ne_none _).symm

theorem entriesOf_files {root : Sandbox.Node} {s : GoString} (hs : s ∈ toolScripts root) :
    ∃ entries, entriesOf root "/sandbox/files" = some entries := by
  cases htools : entriesOf root "/sandbox/files/tools" with
  | none =>
    rw [toolScripts, htools] at hs
    exact absurd hs List.not_mem_nil
  | some tools =>
    obtain ⟨st, hnode⟩ := entriesOf_eq_some.1 htools
    have hcomps : ((splitSep (py "/sandbox/files/tools")).filter fun w => w != []).map fsencode =
        ((splitSep (py "/sandbox/files")).filter fun w => w != []).map fsencode ++ [str "tools"] := by
      decide
    rw [nodeAt, hcomps] at hnode
    obtain ⟨st', entries, hfiles⟩ := find_dir hnode
    exact ⟨entries, entriesOf_eq_some.2 ⟨st', hfiles⟩⟩

/-- **After a scan that does not give up, every script of `/files/tools` is registered as a tool of its own
that runs it, if and only if for every one of them the last script of `/files` with its id is read as it, or
there is none and the table had such a tool before.** -/
theorem rescan_registers_iff (expand : GoString → List GoString) (firstRead : GoString → Option GoString)
    (elsewhere : PyString → Option Sandbox.Answer) (root : Sandbox.Node) (table : ToolTable) :
    (∀ after, rescanCustomTools firstRead (doGet root elsewhere listTarget) table = some after →
        ScriptsRegistered expand root after) ↔
      ∀ outer, outerScripts root = some outer →
        ∀ s ∈ toolScripts root, Overlaid expand outer table s := by
  by_cases hnone : ∀ s, s ∉ toolScripts root
  · refine iff_of_true ?_ ?_
    · intro after _
      exact scriptsRegistered_iff.2 fun s hs => absurd hs (hnone s)
    · intro outer _ s hs
      exact absurd hs (hnone s)
  · obtain ⟨s₀, hs₀⟩ := not_forall_not.1 hnone
    obtain ⟨entries, hfiles⟩ := entriesOf_files hs₀
    rcases rescan_cases hfiles elsewhere firstRead table with ⟨houter, hrescan⟩ |
      ⟨outer, after, houter, hrescan, hafter⟩
    · rw [houter, hrescan]
      exact iff_of_true (fun _ h => absurd h (Option.some_ne_none _).symm)
        fun _ h => absurd h (Option.some_ne_none _).symm
    · rw [houter, hrescan]
      simp only [Option.some.injEq, forall_eq', scriptsRegistered_iff, overlaid_iff hafter]

/-- A script alone in `/files/tools`. -/
def oneTool : Sandbox.Node :=
  .dir ⟨4096, 0⟩ [(str "sandbox", .dir ⟨4096, 0⟩ [(str "files", .dir ⟨4096, 0⟩
    [(str "tools", .dir ⟨4096, 0⟩ [(str "a.sh", .file ⟨8, 0⟩ "echo {}")])])])]

/-- The scan lists `/files`, sees the directory `tools` there and registers nothing. -/
theorem oneTool_missing :
    rescanCustomTools (fun _ => none) (doGet oneTool (fun _ => none) listTarget) ∅ = some ∅ ∧
      toolScripts oneTool = [str "a.sh"] ∧ ¬ ScriptsRegistered (fun w => [w]) oneTool ∅ := by
  refine ⟨rfl, rfl, ?_⟩
  intro h
  obtain ⟨t, ht, -⟩ := h.1 "a.sh" (by decide)
  exact absurd ht (by simp)

end Gafam.Relay
