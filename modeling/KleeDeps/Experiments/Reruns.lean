import KleeDeps.Data.Writers
import KleeDeps.Experiments.Campaigns
import KleeDeps.Experiments.Durations
import Mathlib.Data.Char
import Mathlib.Data.List.Lex

/-!
# Campaigns that are run and merged again

The workers of a campaign write at the same time, and `--postprocess-only` merges what an earlier
run of the campaign left.

- `same_isTrace`: two interleavings of the workers of a campaign leave the same files;
- `schedule_independent`: **what is merged does not depend on how the workers interleave**;
- `merged_again`: **the merge steps read the same files again, and change nothing**.
-/

namespace KleeDeps.Experiments

open Py FileTree Postprocess

/-! ## The workers keep apart -/

section Workers

variable {campaign : Campaign} {results : Worker → List (List Text × Value)}
  {trace other : List (Worker × Op Text File)}

theorem decimal_injective {m n : Nat} (h : decimal m = decimal n) : m = n := by
  rw [← Durations.decimalValue_decimal m, ← Durations.decimalValue_decimal n, h]

theorem decimal_ne_workerLogs (n : Nat) : decimal n ≠ "_worker_logs".toList := by
  intro h
  have hmem : '_' ∈ decimal n := by
    rw [h]
    decide
  exact (mem_toDigits_spec (by decide) (by decide) hmem).2.2 (by decide)

/-- A path of two workers is one of one worker. -/
theorem eq_of_directories {w w' : Worker} {path : List Text} (h : w.directory <+: path)
    (h' : w'.directory <+: path) : w = w' := by
  obtain ⟨rest, rfl⟩ := h
  obtain ⟨hdestination, h'⟩ := List.cons_prefix_cons.mp h'
  obtain ⟨hcopy, -⟩ := List.cons_prefix_cons.mp h'
  cases w
  cases w'
  rw [Worker.mk.injEq]
  exact ⟨hdestination.symm, decimal_injective hcopy.symm⟩

theorem log_not_in_directory (w w' : Worker) : ¬ w.directory <+: w'.log := by
  intro h
  obtain ⟨-, h⟩ := List.cons_prefix_cons.mp h
  obtain ⟨hcopy, -⟩ := List.cons_prefix_cons.mp h
  exact decimal_ne_workerLogs _ hcopy

theorem eq_of_logs {w w' : Worker} (h : w.log = w'.log) : w = w' := by
  obtain ⟨hdestination, h⟩ := List.cons.inj h
  obtain ⟨-, h⟩ := List.cons.inj h
  obtain ⟨hlog, -⟩ := List.cons.inj h
  cases w
  cases w'
  rw [Worker.mk.injEq]
  exact ⟨hdestination, decimal_injective (List.append_cancel_right hlog)⟩

/-- What a worker reaches is in its directory, or its log. -/
theorem reaches_workerOps {tool : Tool} {w : Worker} {written : List (List Text × Value)}
    {op : Op Text File} (h : op ∈ workerOps tool w written) {path : List Text}
    (hreach : op.Reaches path) : w.directory <+: path ∨ path = w.log := by
  rcases mem_workerOps h with rfl | ⟨target, content, rfl, htarget⟩
  · exact .inl hreach
  · obtain rfl : target = path := hreach
    exact htarget

theorem apart_of_isTrace (h : IsTrace campaign results trace) : Apart trace := by
  intro a ha b hb hne path hreach hreach'
  obtain ⟨run, -, hop⟩ := h.step_mem ha
  obtain ⟨run', -, hop'⟩ := h.step_mem hb
  apply hne
  rcases reaches_workerOps hop hreach with hpath | rfl
  · rcases reaches_workerOps hop' hreach' with hpath' | rfl
    · exact eq_of_directories hpath hpath'
    · exact absurd hpath (log_not_in_directory _ _)
  · rcases reaches_workerOps hop' hreach' with hpath' | hlog
    · exact absurd hpath' (log_not_in_directory _ _)
    · exact eq_of_logs hlog

/-- The steps of a worker are its operations. -/
theorem stepsOf_isTrace (h : IsTrace campaign results trace) {run : RunDefinition} {w : Worker}
    (hw : campaign.IsWorker run w) :
    stepsOf w trace = (workerOps run.tool w (results w)).map (w, ·) := by
  rw [← h.order run w hw, List.map_map, stepsOf]
  refine (List.map_id _).symm.trans (List.map_congr_left fun step hstep => ?_)
  have hown : step.1 = w := of_decide_eq_true (List.mem_filter.mp hstep).2
  rw [← hown]
  rfl

theorem same_stepsOf (h : IsTrace campaign results trace) (hother : IsTrace campaign results other)
    (w : Worker) : stepsOf w trace = stepsOf w other := by
  by_cases hw : ∃ run, campaign.IsWorker run w
  · obtain ⟨run, hw⟩ := hw
    rw [stepsOf_isTrace h hw, stepsOf_isTrace hother hw]
  · have hnone : ∀ t : List (Worker × Op Text File), IsTrace campaign results t →
        stepsOf w t = [] := by
      intro t ht
      refine List.filter_eq_nil_iff.mpr fun step hstep hown => hw ?_
      rw [← of_decide_eq_true hown]
      exact ht.workers step hstep
    rw [hnone trace h, hnone other hother]

/-- Two interleavings of the workers leave the same files. -/
theorem same_isTrace (h : IsTrace campaign results trace) (hother : IsTrace campaign results other)
    (files : Files) : Same (FileTree.run trace files) (FileTree.run other files) :=
  same_run (apart_of_isTrace h) (same_stepsOf h hother) files

end Workers

/-! ## The merge of a destination -/

section Merging

variable {F : Type} (env : MergeEnvironment F)

/-- What the merge writes for an experiment. -/
def renderedGroup (destination : Text) (group : Text × List (List Text × File)) :
    Except Exc (List Text × File) := do
  let merged ← mergeSingleExperiment env.readers env.geometricMean env.same
    (group.2.map fun file => (join ['/'] file.1, file.2.content))
  return ([destination, group.1], { origin := none, content := env.render merged })

variable {env}

theorem mergeGroup_eq (destination : Text) (files : Files)
    (group : Text × List (List Text × File)) :
    mergeGroup env destination files group =
      (renderedGroup env destination group).map fun out => files.set out.1 out.2 := by
  rw [mergeGroup, renderedGroup]
  cases mergeSingleExperiment env.readers env.geometricMean env.same
    (group.2.map fun file => (join ['/'] file.1, file.2.content)) <;> rfl

/-- The merge: the outputs are computed from the inputs, then written. -/
theorem mergeAll_eq (files : Files) (destination : Text) :
    mergeAll env files destination =
      ((groupInputFiles env files destination).mapM (renderedGroup env destination)).map
        (removePreviousMergedOutputs files destination).setAll :=
  Sequence.foldlM_eq_mapM (mergeGroup_eq destination) _ _

theorem get?_removePrevious (files : Files) (destination : Text) (path : List Text) :
    (removePreviousMergedOutputs files destination).get? path =
      if isMergedOutput destination path then none else files.get? path := by
  split
  · next h => exact lookup_filter_none fun _ => by rw [h]; rfl
  · next h => exact lookup_filter fun _ => by rw [Bool.eq_false_iff.mpr h]; rfl

/-- The outputs stand directly below the destination. -/
theorem path_of_rendered {destination : Text} {groups : List (Text × List (List Text × File))}
    {outs : List (List Text × File)}
    (h : groups.mapM (renderedGroup env destination) = .ok outs) {out : List Text × File}
    (hout : out ∈ outs) : ∃ base, out.1 = [destination, base] := by
  obtain ⟨group, -, hrendered⟩ := Sequence.exists_left_of_mapM h hout
  obtain ⟨merged, -, hrendered⟩ := Sequence.bind_eq_ok_iff.mp hrendered
  obtain rfl := Except.ok.inj hrendered
  exact ⟨group.1, rfl⟩

theorem mergeAll_eq_ok_iff {files after : Files} {destination : Text} :
    mergeAll env files destination = .ok after ↔
      ∃ outs, (groupInputFiles env files destination).mapM (renderedGroup env destination) =
          .ok outs ∧ after = (removePreviousMergedOutputs files destination).setAll outs := by
  rw [mergeAll_eq]
  cases (groupInputFiles env files destination).mapM (renderedGroup env destination) with
  | error e =>
    constructor
    · intro h
      cases h
    · rintro ⟨outs, houts, -⟩
      cases houts
  | ok outs =>
    refine ⟨fun h => ⟨outs, rfl, (Except.ok.inj h).symm⟩, ?_⟩
    rintro ⟨_, hout, rfl⟩
    rw [← Except.ok.inj hout]
    rfl

/-- Deeper files are left alone, and in their order. -/
theorem filter_mergeAll {files after : Files} {destination : Text}
    (h : mergeAll env files destination = .ok after) {pattern : List Text → Bool}
    (hpattern : ∀ d base, pattern [d, base] = false) :
    after.items.filter (pattern ·.1) = files.items.filter (pattern ·.1) := by
  obtain ⟨outs, houts, rfl⟩ := mergeAll_eq_ok_iff.mp h
  rw [Dict.filter_setAll]
  · rw [removePreviousMergedOutputs, List.filter_filter]
    refine List.filter_congr fun file _ => ?_
    match hpath : file.1 with
    | [d, base] => rw [hpattern d base, Bool.false_and]
    | [] => exact Bool.and_true _
    | [_] => exact Bool.and_true _
    | _ :: _ :: _ :: _ => exact Bool.and_true _
  · intro out hout content
    obtain ⟨base, hbase⟩ := path_of_rendered houts hout
    show pattern out.1 = false
    rw [hbase]
    exact hpattern destination base

theorem groupInputFiles_mergeAll {files after : Files} {destination : Text}
    (h : mergeAll env files destination = .ok after) (other : Text) :
    groupInputFiles env after other = groupInputFiles env files other := by
  rw [groupInputFiles, groupInputFiles, filter_mergeAll h fun _ _ => rfl]

/-- Files below another destination are left alone. -/
theorem get?_mergeAll_other {files after : Files} {destination other : Text}
    (h : mergeAll env files destination = .ok after) (hne : other ≠ destination)
    (rest : List Text) : after.get? (other :: rest) = files.get? (other :: rest) := by
  obtain ⟨outs, houts, rfl⟩ := mergeAll_eq_ok_iff.mp h
  have hkeys : other :: rest ∉ outs.map Prod.fst := by
    intro hmem
    obtain ⟨out, hout, hpath⟩ := List.mem_map.mp hmem
    obtain ⟨base, hbase⟩ := path_of_rendered houts hout
    rw [hbase] at hpath
    exact hne (List.cons.inj hpath).1.symm
  rw [Dict.get?_setAll_of_notMem _ hkeys, get?_removePrevious, if_neg]
  intro hmerged
  match rest, hmerged with
  | [base], hmerged =>
    simp only [isMergedOutput, Bool.and_eq_true, decide_eq_true_eq] at hmerged
    exact hne hmerged.1.1

/-! ### A merged destination -/

/-- Merging the destination again writes what is there. -/
def Merged (env : MergeEnvironment F) (destination : Text) (files : Files) : Prop :=
  ∃ outs, (groupInputFiles env files destination).mapM (renderedGroup env destination) = .ok outs ∧
    Same ((removePreviousMergedOutputs files destination).setAll outs) files

/-- What the rewritten tree holds at a path. -/
theorem get?_rewritten (files : Files) (destination : Text) (outs : List (List Text × File))
    (path : List Text) :
    ((removePreviousMergedOutputs files destination).setAll outs).get? path =
      (Dict.lookup path outs.reverse).or
        (if isMergedOutput destination path then none else files.get? path) := by
  rw [Dict.get?_setAll, get?_removePrevious]

/-- A merge leaves its destination merged. -/
theorem merged_mergeAll {files after : Files} {destination : Text}
    (h : mergeAll env files destination = .ok after) : Merged env destination after := by
  have hgroups := groupInputFiles_mergeAll h destination
  obtain ⟨outs, houts, rfl⟩ := mergeAll_eq_ok_iff.mp h
  refine ⟨outs, by rw [hgroups, houts], fun path => ?_⟩
  rw [get?_rewritten, get?_rewritten]
  cases Dict.lookup path outs.reverse with
  | some content => rfl
  | none => split <;> rfl

/-- The merge of another destination keeps it merged. -/
theorem Merged.frame {files after : Files} {destination other : Text}
    (hmerged : Merged env destination files) (h : mergeAll env files other = .ok after)
    (hne : destination ≠ other) : Merged env destination after := by
  obtain ⟨outs, houts, hsame⟩ := hmerged
  refine ⟨outs, by rw [groupInputFiles_mergeAll h, houts], fun path => ?_⟩
  have hpath := hsame path
  rw [get?_rewritten] at hpath ⊢
  by_cases hbelow : ∃ rest, path = destination :: rest
  · obtain ⟨rest, rfl⟩ := hbelow
    rw [get?_mergeAll_other h hne]
    exact hpath
  · have hlookup : Dict.lookup path outs.reverse = none := by
      by_contra hsome
      obtain ⟨content, hcontent⟩ := Option.ne_none_iff_exists'.mp hsome
      obtain ⟨base, hbase⟩ := path_of_rendered houts
        (List.mem_reverse.mp (Dict.mem_of_lookup hcontent))
      exact hbelow ⟨[base], hbase⟩
    have houtside : isMergedOutput destination path = false := by
      by_contra hinside
      match path, hinside with
      | [d, base], hinside =>
        simp only [isMergedOutput, Bool.not_eq_false, Bool.and_eq_true, decide_eq_true_eq]
          at hinside
        exact hbelow ⟨[base], by rw [hinside.1.1]⟩
    rw [hlookup, houtside]
    rfl

theorem Merged.congr {files other : Files} {destination : Text}
    (hmerged : Merged env destination files) (hsame : Same other files)
    (hgroups : groupInputFiles env other destination = groupInputFiles env files destination) :
    Merged env destination other := by
  obtain ⟨outs, houts, hrewritten⟩ := hmerged
  refine ⟨outs, by rw [hgroups, houts], fun path => ?_⟩
  have hpath := hrewritten path
  rw [get?_rewritten] at hpath ⊢
  rw [hsame path]
  exact hpath

/-- Merging a merged destination changes nothing. -/
theorem Merged.mergeAll {files : Files} {destination : Text}
    (hmerged : Merged env destination files) :
    ∃ again, mergeAll env files destination = .ok again ∧ Same again files := by
  obtain ⟨outs, houts, hsame⟩ := hmerged
  exact ⟨_, mergeAll_eq_ok_iff.mpr ⟨outs, houts, rfl⟩, hsame⟩

/-! ### The runs of a campaign -/

theorem mergeRuns_cons {files after : Files} {run : RunDefinition} {rest : List RunDefinition}
    {inputs : List (List Text × File)} :
    mergeRuns env files (run :: rest) = .ok (inputs, after) ↔
      ∃ next more, mergeAll env files run.destination = .ok next ∧
        mergeRuns env next rest = .ok (more, after) ∧
        inputs = (groupInputFiles env files run.destination).flatMap Prod.snd ++ more := by
  rw [mergeRuns, Sequence.bind_eq_ok_iff]
  refine exists_congr fun next => ?_
  rw [exists_and_left]
  refine and_congr_right fun _ => ?_
  rw [Sequence.bind_eq_ok_iff]
  constructor
  · rintro ⟨merged, hmerged, h⟩
    obtain ⟨rfl, rfl⟩ := Prod.mk.inj (Except.ok.inj h)
    exact ⟨merged.1, hmerged, rfl⟩
  · rintro ⟨more, hmerged, rfl⟩
    exact ⟨_, hmerged, rfl⟩

/-- What a sequence of merges leaves alone, from what a single one does. -/
theorem mergeRuns_induction {runs : List RunDefinition} {files after : Files}
    {inputs : List (List Text × File)} (P : Files → Prop) (hstart : P files)
    (hstep : ∀ run ∈ runs, ∀ before next, P before →
      mergeAll env before run.destination = .ok next → P next)
    (h : mergeRuns env files runs = .ok (inputs, after)) : P after := by
  induction runs generalizing files inputs with
  | nil =>
    obtain ⟨-, rfl⟩ := Prod.mk.inj (Except.ok.inj h)
    exact hstart
  | cons run rest ih =>
    obtain ⟨next, more, hnext, hmore, -⟩ := mergeRuns_cons.mp h
    exact ih (hstep run List.mem_cons_self files next hstart hnext)
      (fun other hother => hstep other (List.mem_cons_of_mem _ hother)) hmore

theorem filter_mergeRuns {runs : List RunDefinition} {files after : Files}
    {inputs : List (List Text × File)} (h : mergeRuns env files runs = .ok (inputs, after))
    {pattern : List Text → Bool} (hpattern : ∀ d base, pattern [d, base] = false) :
    after.items.filter (pattern ·.1) = files.items.filter (pattern ·.1) :=
  mergeRuns_induction (fun tree => tree.items.filter (pattern ·.1) =
    files.items.filter (pattern ·.1)) rfl
    (fun _ _ _ _ hbefore hnext => (filter_mergeAll hnext hpattern).trans hbefore) h

/-- The inputs of a sequence of merges are those of the tree before it. -/
theorem inputs_mergeRuns {runs : List RunDefinition} {files after : Files}
    {inputs : List (List Text × File)} (h : mergeRuns env files runs = .ok (inputs, after)) :
    inputs = runs.flatMap fun run =>
      (groupInputFiles env files run.destination).flatMap Prod.snd := by
  induction runs generalizing files inputs with
  | nil => exact (Prod.mk.inj (Except.ok.inj h)).1.symm
  | cons run rest ih =>
    obtain ⟨next, more, hnext, hmore, rfl⟩ := mergeRuns_cons.mp h
    rw [List.flatMap_cons, ih hmore]
    simp only [groupInputFiles_mergeAll hnext]

/-- After the merges of a campaign all destinations are merged. -/
theorem merged_mergeRuns {runs : List RunDefinition}
    (hdistinct : (runs.map RunDefinition.destination).Nodup) {files after : Files}
    {inputs : List (List Text × File)} (h : mergeRuns env files runs = .ok (inputs, after)) :
    ∀ run ∈ runs, Merged env run.destination after := by
  induction runs generalizing files inputs with
  | nil => exact fun run hrun => absurd hrun List.not_mem_nil
  | cons run rest ih =>
    obtain ⟨hfirst, hrest⟩ := List.nodup_cons.mp hdistinct
    obtain ⟨next, more, hnext, hmore, -⟩ := mergeRuns_cons.mp h
    refine List.forall_mem_cons.mpr ⟨?_, ih hrest hmore⟩
    refine mergeRuns_induction (Merged env run.destination) (merged_mergeAll hnext) ?_ hmore
    intro other hother before next' hbefore hnext'
    exact hbefore.frame hnext' fun heq => hfirst (List.mem_map.mpr ⟨other, hother, heq.symm⟩)

/-- Merging merged destinations changes nothing. -/
theorem mergeRuns_of_merged {runs : List RunDefinition} {files : Files}
    (hmerged : ∀ run ∈ runs, Merged env run.destination files) :
    ∃ inputs again, mergeRuns env files runs = .ok (inputs, again) ∧ Same again files := by
  induction runs generalizing files with
  | nil => exact ⟨[], files, rfl, fun _ => rfl⟩
  | cons run rest ih =>
    obtain ⟨hfirst, hrest⟩ := List.forall_mem_cons.mp hmerged
    obtain ⟨next, hnext, hsame⟩ := hfirst.mergeAll
    obtain ⟨more, again, hmore, hagain⟩ := ih fun other hother =>
      (hrest other hother).congr hsame (groupInputFiles_mergeAll hnext other.destination)
    exact ⟨_, again, mergeRuns_cons.mpr ⟨next, more, hnext, hmore, rfl⟩,
      fun path => (hagain path).trans (hsame path)⟩

/-- `--postprocess-only`, after the merge steps of a campaign: they read the same files in the same
order, report the same, and leave every file as it is. -/
theorem merged_again {F : Type} (env : MergeEnvironment F) (campaign : Campaign)
    {files after : Files} {inputs : List (List Text × File)}
    (h : mergeRuns env files campaign.runs = .ok (inputs, after)) :
    (∃ again, mergeRuns env after campaign.runs = .ok (inputs, again) ∧ Same again after) ∧
      postprocess env campaign after = postprocess env campaign files := by
  obtain ⟨inputs', again, hagain, hsame⟩ :=
    mergeRuns_of_merged (merged_mergeRuns campaign.distinct h)
  have hgroups : ∀ destination, groupInputFiles env after destination =
      groupInputFiles env files destination := by
    intro destination
    rw [groupInputFiles, groupInputFiles, filter_mergeRuns h fun _ _ => rfl]
  obtain rfl : inputs' = inputs := by
    rw [inputs_mergeRuns hagain, inputs_mergeRuns h]
    simp only [hgroups]
  refine ⟨⟨again, hagain, hsame⟩, ?_⟩
  have htimings : ∀ destination, timingFilesByCase again destination =
      timingFilesByCase after destination := by
    intro destination
    rw [timingFilesByCase, timingFilesByCase, filter_mergeRuns hagain fun _ _ => rfl]
  rw [postprocess, postprocess, hagain, h]
  show Except.ok _ = Except.ok _
  simp only [htimings]

/-- The campaign of two copies, merged twice. -/
theorem merged_again_two :
    ∃ merged, mergeRuns plainEnvironment (FileTree.run (binsecTrace 2) (filesOf .empty))
        (binsecCampaign 2 (by decide)).runs = .ok merged ∧ merged.1.length = 2 ∧
      (∃ again, mergeRuns plainEnvironment merged.2 (binsecCampaign 2 (by decide)).runs =
        .ok (merged.1, again) ∧ Same again merged.2) ∧
      postprocess plainEnvironment (binsecCampaign 2 (by decide)) merged.2 =
        postprocess plainEnvironment (binsecCampaign 2 (by decide))
          (FileTree.run (binsecTrace 2) (filesOf .empty)) :=
  ⟨_, rfl, rfl, merged_again plainEnvironment (binsecCampaign 2 (by decide)) rfl⟩

/-! ## The merge and the order of the files -/

section Order

variable {K : Type} [LinearOrder K] {key : Text → K}

/-- `_natural_key` tells the names of the inputs apart. -/
def Separates (key : Text → K) (runs : List RunDefinition) (files : Files) : Prop :=
  ∀ run ∈ runs, ∀ sub base sub' base',
    isInput run.destination [run.destination, sub, base] = true →
    isInput run.destination [run.destination, sub', base'] = true →
    (files.get? [run.destination, sub, base]).isSome →
    (files.get? [run.destination, sub', base']).isSome →
      (key sub = key sub' → sub = sub') ∧ (key base = key base' → base = base')

theorem naturalSort_perm (hkey : ∀ a b, env.naturalBefore a b = decide (key a < key b))
    {α : Type} {name : α → Text} {xs ys : List α} (hperm : xs.Perm ys)
    (hinj : ∀ x ∈ xs, ∀ y ∈ xs, key (name x) = key (name y) → x = y) :
    naturalSort env name xs = naturalSort env name ys := by
  have hle : ∀ a b : α, env.naturalBefore (name b) (name a) = false ↔ key (name a) ≤ key (name b) := by
    intro a b
    rw [hkey, decide_eq_false_iff_not, not_lt]
  have hsorted : ∀ zs : List α, (naturalSort env name zs).Pairwise
      fun a b => key (name a) ≤ key (name b) := by
    intro zs
    have htotal : Std.Total fun a b : α => env.naturalBefore (name b) (name a) = false :=
      ⟨fun a b => by rw [hle, hle]; exact le_total _ _⟩
    have htrans : IsTrans α fun a b => env.naturalBefore (name b) (name a) = false :=
      ⟨fun a b c => by rw [hle, hle, hle]; exact le_trans⟩
    exact (List.pairwise_insertionSort _ zs).imp (hle _ _).mp
  have hxs := List.perm_insertionSort
    (fun a b : α => env.naturalBefore (name b) (name a) = false) xs
  have hys := List.perm_insertionSort
    (fun a b : α => env.naturalBefore (name b) (name a) = false) ys
  refine List.Perm.eq_of_pairwise (fun a b ha hb hab hba => ?_) (hsorted xs) (hsorted ys)
    (hxs.trans (hperm.trans hys.symm))
  exact hinj a (hxs.mem_iff.mp ha) b (hperm.mem_iff.mpr (hys.mem_iff.mp hb)) (le_antisymm hab hba)

omit [LinearOrder K] in
/-- Two inputs of a destination with the same names are one. -/
theorem eq_of_names {files : Files} {destination : Text} {x y : List Text × File}
    (hx : x ∈ files.items.filter (isInput destination ·.1))
    (hy : y ∈ files.items.filter (isInput destination ·.1))
    (hdirectory : directoryName x = directoryName y) (hfile : fileName x = fileName y) : x = y := by
  obtain ⟨hxmatch, hxget⟩ := mem_matching.mp hx
  obtain ⟨hymatch, hyget⟩ := mem_matching.mp hy
  obtain ⟨sub, base, hxpath, -⟩ := isInput_spec hxmatch
  obtain ⟨sub', base', hypath, -⟩ := isInput_spec hymatch
  rw [directoryName, directoryName, hxpath, hypath] at hdirectory
  rw [fileName, fileName, hxpath, hypath] at hfile
  obtain rfl : sub = sub' := hdirectory
  obtain rfl : base = base' := hfile
  have hpath : x.1 = y.1 := hxpath.trans hypath.symm
  rw [hpath, hyget] at hxget
  exact Prod.ext hpath (Option.some.inj hxget).symm

omit [LinearOrder K] in
/-- The names of the inputs are told apart. -/
theorem Separates.names {runs : List RunDefinition} {files : Files}
    (h : Separates key runs files) {run : RunDefinition} (hrun : run ∈ runs)
    {x y : List Text × File} (hx : x ∈ files.items.filter (isInput run.destination ·.1))
    (hy : y ∈ files.items.filter (isInput run.destination ·.1)) :
    (key (directoryName x) = key (directoryName y) → directoryName x = directoryName y) ∧
      (key (fileName x) = key (fileName y) → fileName x = fileName y) := by
  obtain ⟨hxmatch, hxget⟩ := mem_matching.mp hx
  obtain ⟨hymatch, hyget⟩ := mem_matching.mp hy
  obtain ⟨sub, base, hxpath, -⟩ := isInput_spec hxmatch
  obtain ⟨sub', base', hypath, -⟩ := isInput_spec hymatch
  rw [hxpath] at hxmatch hxget
  rw [hypath] at hymatch hyget
  have hnames := h run hrun sub base sub' base' hxmatch hymatch (by rw [hxget]; rfl)
    (by rw [hyget]; rfl)
  rw [directoryName, directoryName, fileName, fileName, hxpath, hypath]
  exact hnames

omit [LinearOrder K] in
/-- The sorted groups of a list. -/
theorem mem_sortedGroups {α β : Type} {name : α → Text} {sort : List α → β} {xs : List α}
    {item : Text × β} :
    item ∈ (Dict.group name xs).items.map (fun group => (group.1, sort group.2)) ↔
      xs.filter (name · = item.1) ≠ [] ∧ item.2 = sort (xs.filter (name · = item.1)) := by
  constructor
  · intro h
    obtain ⟨⟨k, members⟩, hmem, rfl⟩ := List.mem_map.mp h
    have hget := Dict.get?_group name xs k
    rw [Dict.get?_of_mem _ hmem] at hget
    split at hget
    · cases hget
    · next hne => exact ⟨hne, by rw [Option.some.inj hget]⟩
  · rintro ⟨hne, hitem⟩
    have hget := Dict.get?_group name xs item.1
    rw [if_neg hne] at hget
    exact List.mem_map.mpr ⟨_, Dict.mem_of_lookup hget, Prod.ext rfl hitem.symm⟩

/-- The same files are merged in the same groups and order. -/
theorem groupInputFiles_same (hkey : ∀ a b, env.naturalBefore a b = decide (key a < key b))
    {runs : List RunDefinition} {s t : Files} (hsep : Separates key runs s) (hsame : Same s t)
    {run : RunDefinition} (hrun : run ∈ runs) :
    groupInputFiles env s run.destination = groupInputFiles env t run.destination := by
  have hperm := hsame.perm.filter (isInput run.destination ·.1)
  have hsorted : ∀ k, naturalSort env directoryName
      ((s.items.filter (isInput run.destination ·.1)).filter (fileName · = k)) =
        naturalSort env directoryName
          ((t.items.filter (isInput run.destination ·.1)).filter (fileName · = k)) := by
    intro k
    refine naturalSort_perm hkey (hperm.filter _) fun x hx y hy heq => ?_
    obtain ⟨hx, hxname⟩ := List.mem_filter.mp hx
    obtain ⟨hy, hyname⟩ := List.mem_filter.mp hy
    refine eq_of_names hx hy ((hsep.names hrun hx hy).1 heq) ?_
    rw [of_decide_eq_true hxname, of_decide_eq_true hyname]
  have hnodup : ∀ xs : List (List Text × File), ((Dict.group fileName xs).items.map
      fun group => (group.1, naturalSort env directoryName group.2)).Nodup := by
    intro xs
    refine List.Nodup.of_map Prod.fst ?_
    rw [List.map_map]
    exact (Dict.group fileName xs).nodup
  have hnonempty : ∀ k, (s.items.filter (isInput run.destination ·.1)).filter (fileName · = k) = [] ↔
      (t.items.filter (isInput run.destination ·.1)).filter (fileName · = k) = [] := fun k =>
    ⟨fun h => ((hperm.filter _).symm.trans (.of_eq h)).eq_nil,
      fun h => ((hperm.filter _).trans (.of_eq h)).eq_nil⟩
  refine naturalSort_perm hkey ?_ ?_
  · refine (List.perm_ext_iff_of_nodup (hnodup _) (hnodup _)).mpr fun item => ?_
    rw [mem_sortedGroups, mem_sortedGroups, Ne, Ne, hnonempty, hsorted]
  · intro x hx y hy heq
    obtain ⟨hxne, hxsorted⟩ := mem_sortedGroups.mp hx
    obtain ⟨hyne, hysorted⟩ := mem_sortedGroups.mp hy
    obtain ⟨a, ha⟩ := List.exists_mem_of_ne_nil _ hxne
    obtain ⟨b, hb⟩ := List.exists_mem_of_ne_nil _ hyne
    obtain ⟨ha, haname⟩ := List.mem_filter.mp ha
    obtain ⟨hb, hbname⟩ := List.mem_filter.mp hb
    have hnames := (hsep.names hrun ha hb).2
    rw [of_decide_eq_true haname, of_decide_eq_true hbname] at hnames
    have hfirst := hnames heq
    refine Prod.ext hfirst ?_
    rw [hxsorted, hysorted, hfirst]

/-- The same result, up to the order of the files. -/
def SameOutcome {α : Type} (r r' : Except Exc (α × Files)) : Prop :=
  (∃ a s t, r = .ok (a, s) ∧ r' = .ok (a, t) ∧ Same s t) ∨ ∃ e, r = .error e ∧ r' = .error e

omit [LinearOrder K] in
theorem separates_of_get? {runs : List RunDefinition} {s t : Files} (hsep : Separates key runs s)
    (hget : ∀ path : List Text, path.length ≠ 2 → t.get? path = s.get? path) :
    Separates key runs t := by
  intro run hrun sub base sub' base' hmatch hmatch' hin hin'
  rw [hget _ (by simp)] at hin hin'
  exact hsep run hrun sub base sub' base' hmatch hmatch' hin hin'

theorem mergeAll_same {s t : Files} {destination : Text} (hsame : Same s t)
    (hgroups : groupInputFiles env s destination = groupInputFiles env t destination) :
    (∃ after after', mergeAll env s destination = .ok after ∧
      mergeAll env t destination = .ok after' ∧ Same after after') ∨
    ∃ e, mergeAll env s destination = .error e ∧ mergeAll env t destination = .error e := by
  rw [mergeAll_eq, mergeAll_eq, hgroups]
  cases (groupInputFiles env t destination).mapM (renderedGroup env destination) with
  | error e => exact .inr ⟨e, rfl, rfl⟩
  | ok outs =>
    refine .inl ⟨_, _, rfl, rfl, fun path => ?_⟩
    rw [get?_rewritten, get?_rewritten, hsame path]

theorem mergeRuns_same (hkey : ∀ a b, env.naturalBefore a b = decide (key a < key b))
    {runs : List RunDefinition} {s t : Files} (hsep : Separates key runs s) (hsame : Same s t) :
    SameOutcome (mergeRuns env s runs) (mergeRuns env t runs) := by
  induction runs generalizing s t with
  | nil => exact .inl ⟨[], s, t, rfl, rfl, hsame⟩
  | cons run rest ih =>
    have hgroups := groupInputFiles_same hkey hsep hsame List.mem_cons_self
    rcases mergeAll_same hsame hgroups with ⟨after, after', hafter, hafter', hnext⟩ | ⟨e, he, he'⟩
    · have hrest : Separates key rest after :=
        separates_of_get? (fun other hother => hsep other (List.mem_cons_of_mem _ hother))
          fun path hpath => get?_mergeAll hpath hafter
      rcases ih hrest hnext with ⟨inputs, a, b, ha, hb, hmerged⟩ | ⟨e, he, he'⟩
      · exact .inl ⟨_, a, b, mergeRuns_cons.mpr ⟨after, inputs, hafter, ha, rfl⟩,
          mergeRuns_cons.mpr ⟨after', inputs, hafter', hb, by rw [hgroups]⟩, hmerged⟩
      · refine .inr ⟨e, ?_, ?_⟩
        · rw [mergeRuns, hafter]
          simp only [bind, Except.bind, he]
        · rw [mergeRuns, hafter']
          simp only [bind, Except.bind, he']
    · refine .inr ⟨e, ?_, ?_⟩
      · rw [mergeRuns, he]
        rfl
      · rw [mergeRuns, he']
        rfl

omit [LinearOrder K] in
theorem timingFilesByCase_same {s t : Files} (hsame : Same s t) (destination : Text) :
    timingFilesByCase s destination = timingFilesByCase t destination := by
  have hperm := hsame.perm.filter (isTiming destination ·.1)
  rw [timingFilesByCase, timingFilesByCase]
  refine congrArg (Dict.group jsonStem) ?_
  have hle : ∀ p q : List Text, ¬ q < p ↔ p ≤ q := fun p q => not_lt
  have htotal : Std.Total fun a b : List Text × File => ¬ b.1 < a.1 :=
    ⟨fun a b => by rw [hle, hle]; exact le_total _ _⟩
  have htrans : IsTrans (List Text × File) fun a b => ¬ b.1 < a.1 :=
    ⟨fun a b c => by rw [hle, hle, hle]; exact le_trans⟩
  have hs := List.perm_insertionSort (fun a b : List Text × File => ¬ b.1 < a.1)
    (s.items.filter (isTiming destination ·.1))
  have ht := List.perm_insertionSort (fun a b : List Text × File => ¬ b.1 < a.1)
    (t.items.filter (isTiming destination ·.1))
  refine List.Perm.eq_of_pairwise (fun a b ha hb hab hba => ?_) (List.pairwise_insertionSort _ _)
    (List.pairwise_insertionSort _ _) (hs.trans (hperm.trans ht.symm))
  have hpath : a.1 = b.1 := le_antisymm ((hle _ _).mp hab) ((hle _ _).mp hba)
  have haget := (mem_matching.mp (hs.mem_iff.mp ha)).2
  have hbget := (mem_matching.mp (ht.mem_iff.mp hb)).2
  rw [hsame, hpath, hbget] at haget
  exact Prod.ext hpath (Option.some.inj haget).symm

/-- The same files give the same report. -/
theorem postprocess_same (hkey : ∀ a b, env.naturalBefore a b = decide (key a < key b))
    {campaign : Campaign} {s t : Files} (hsep : Separates key campaign.runs s) (hsame : Same s t) :
    postprocess env campaign s = postprocess env campaign t := by
  rw [postprocess, postprocess]
  rcases mergeRuns_same hkey hsep hsame with ⟨inputs, a, b, ha, hb, hmerged⟩ | ⟨e, he, he'⟩
  · rw [ha, hb]
    show Except.ok _ = Except.ok _
    simp only [timingFilesByCase_same hmerged]
  · rw [he, he']

end Order

/-- However the workers of a campaign interleave, they leave the same files, whatever was there
before, and what is merged of them is the same: the same findings, notes and timings, or the same
error. -/
theorem schedule_independent {F K : Type} [LinearOrder K] (env : MergeEnvironment F)
    {key : Text → K} (hkey : ∀ a b, env.naturalBefore a b = decide (key a < key b))
    {campaign : Campaign} {results : Worker → List (List Text × Value)}
    {trace other : List (Worker × Op Text File)} (htrace : IsTrace campaign results trace)
    (hother : IsTrace campaign results other) {files : Files}
    (hsep : Separates key campaign.runs (FileTree.run trace files)) :
    Same (FileTree.run trace files) (FileTree.run other files) ∧
      postprocess env campaign (FileTree.run trace files) =
        postprocess env campaign (FileTree.run other files) := by
  have hsame := same_isTrace htrace hother files
  exact ⟨hsame, postprocess_same hkey hsep hsame⟩

/-- The two workers the other way round, the log of the first one between the files of the second. -/
def binsecTraceAcross : List (Worker × Op Text File) :=
  let ops := fun copy => (workerOps .binsec (binsecWorker copy) (aesResults (binsecWorker copy))).map
    (binsecWorker copy, ·)
  (ops 1).take 2 ++ ops 0 ++ (ops 1).drop 2

theorem isTrace_binsecTraceAcross :
    IsTrace (binsecCampaign 2 (by decide)) aesResults binsecTraceAcross where
  workers step hstep := by
    have hall : ∀ step ∈ binsecTraceAcross, step.1 = binsecWorker 0 ∨ step.1 = binsecWorker 1 := by
      intro step hstep
      simp only [binsecTraceAcross, List.mem_append] at hstep
      rcases hstep with (hstep | hstep) | hstep
      · obtain ⟨op, -, rfl⟩ := List.mem_map.mp (List.mem_of_mem_take hstep)
        exact .inr rfl
      · obtain ⟨op, -, rfl⟩ := List.mem_map.mp hstep
        exact .inl rfl
      · obtain ⟨op, -, rfl⟩ := List.mem_map.mp (List.mem_of_mem_drop hstep)
        exact .inr rfl
    refine ⟨_, List.mem_singleton_self _, ?_⟩
    rcases hall step hstep with h | h
    · rw [h]
      exact ⟨rfl, by decide⟩
    · rw [h]
      exact ⟨rfl, by decide⟩
  order := by
    rintro run ⟨destination, copy⟩ ⟨hrun, rfl, hcopy⟩
    obtain rfl := List.mem_singleton.mp hrun
    have hcases : copy = 0 ∨ copy = 1 := by
      have hlt : copy < 2 := hcopy
      omega
    rcases hcases with rfl | rfl
    · rfl
    · rfl

theorem schedule_independent_two :
    Same (FileTree.run (binsecTrace 2) (filesOf leftBehind))
        (FileTree.run binsecTraceAcross (filesOf leftBehind)) ∧
      postprocess plainEnvironment (binsecCampaign 2 (by decide))
          (FileTree.run (binsecTrace 2) (filesOf leftBehind)) =
        postprocess plainEnvironment (binsecCampaign 2 (by decide))
          (FileTree.run binsecTraceAcross (filesOf leftBehind)) :=
  @schedule_independent Int Text _ plainEnvironment id
    (fun _ _ => decide_eq_decide.mpr Iff.rfl) _ _ _ _ isTrace_binsecTrace_two
    isTrace_binsecTraceAcross _ fun _ _ _ _ _ _ _ _ _ _ => ⟨fun h => h, fun h => h⟩

end Merging

end KleeDeps.Experiments
