import SeKernel.LinkedList.Stable
import SeKernel.Loader.Runs

/-!
# The files of the loader

`loader_init` pushes the path of every file that `readdir` returns and sorts the list, which
`loader_load_next_process` then pops. The sort leaves the backward links, and they are what the pops
follow: the loader loads the greatest name, then what was read before it, the last first, and never
what was read after it (`loader_init_loads`). As far as it comes it is the loader of
`SeKernel.Loader.Basic` over these paths, in the order of `readdir` and not in that of `strcmp`.
-/

namespace SeKernel.Nodes

open LinkedList Doubly

/-- Reference: `LOAD_DIR` (`headers/loader.h:13`). -/
def loadDir : List Char := "./data/programlist/".toList

/-- Reference: `LOADER_MAX_TLB` (`src/loader_s.c:10`). -/
def loaderMaxTlb : Nat := 10

instance : NeZero loaderMaxTlb := ⟨by decide⟩

/-- The allocated strings. -/
abbrev StringHeap := VoidPtr → Option (List Char)

/-- `strcmp` of `<string.h>`: characters compare as `unsigned char`, and the end of a string is less
than any of them. -/
def strcmp : List Char → List Char → Int
  | [], [] => 0
  | [], _ :: _ => -1
  | _ :: _, [] => 1
  | a :: s1, b :: s2 => if a = b then strcmp s1 s2 else a.toNat - b.toNat

/-- `strcmp` as `merge_sort` calls it, on the strings behind two data. -/
def strcmpAt (strings : StringHeap) (x y : VoidPtr) : Int :=
  strcmp ((strings x).getD []) ((strings y).getD [])

/-- What `concat` prints before `exit(1)`. -/
def concatFailed : Fault := .err 1 "Error: malloc failed in concat\n"

/-- `malloc` returns `result`. Reference: `concat` (`src/loader_s.c:12`). -/
def concat (result : VoidPtr) (s1 s2 : List Char) (strings : StringHeap) : Outcome StringHeap :=
  if result = NULL then throw concatFailed
  else if (strings result).isSome then throw .mallocInUse
  else return Function.update strings result (some (s1 ++ s2))

/-- What `readdir` returns, and what `malloc` returns in its round: for the path and for the node of
the list. -/
structure Dirent where
  dName : List Char
  filePath : VoidPtr
  node : Addr

/-- The two entries that are no files. -/
def Dirent.Skipped (dir : Dirent) : Prop :=
  strcmp dir.dName ['.'] = 0 ∨ strcmp dir.dName ['.', '.'] = 0

instance (dir : Dirent) : Decidable dir.Skipped :=
  inferInstanceAs (Decidable (strcmp dir.dName ['.'] = 0 ∨ strcmp dir.dName ['.', '.'] = 0))

/-- A list of paths, with the nodes and the strings. -/
structure Paths where
  list : LinkedlistStructure
  nodes : Heap
  strings : StringHeap

/-- One round of the `while` loop. Reference: `loader_init` (`src/loader_s.c:46`). -/
def loaderInitEntry (s : Paths) (dir : Dirent) : Outcome Paths :=
  if dir.Skipped then
    return s
  else do
    let strings ← concat dir.filePath loadDir dir.dName s.strings
    let (list, nodes) ← linkedlistPush dir.node s.list dir.filePath s.nodes
    return ⟨list, nodes, strings⟩

/-- Reference: `struct loader_s` (`headers/loader.h:15`). The scheduler is an argument of its
own. -/
structure Loader (m : Nat) where
  unloadedElfList : LinkedlistStructure
  pridCounter : Int
  maxPrio : Int
  mmu : Mmu m

/-- The TLB that `malloc` returns is flushed. Reference: `mmu_init` (`src/memory_s.c:328`). -/
def mmuInit (tlbMaxSpace : Nat) : Mmu tlbMaxSpace := tlbFlush tlbMaxSpace

/-- `d` holds what `readdir` returns, if `opendir` succeeds. `merge_sort` is given as many rounds as
there are nodes, and one. Reference: `loader_init` (`src/loader_s.c:35`). -/
def loaderInit (maxPrio : Int) (d : Option (List Dirent)) (nodes : Heap) (strings : StringHeap) :
    Outcome (Int × Loader loaderMaxTlb × Heap × StringHeap) := do
  let s ← (d.getD []).foldlM loaderInitEntry ⟨linkedlistInit, nodes, strings⟩
  let (unloadedElfList, nodes) ←
    mergeSort (s.list.length.toNat + 1) s.list (strcmpAt s.strings) s.nodes
  return (0, ⟨unloadedElfList, 1, maxPrio, mmuInit loaderMaxTlb⟩, nodes, s.strings)

/-- The names of the files, in the order of `readdir`. -/
def fileNames (d : Option (List Dirent)) : List (List Char) :=
  ((d.getD []).filter fun dir => ¬ dir.Skipped).map Dirent.dName

/-! ## The order of the names -/

theorem strcmp_swap (s t : List Char) : strcmp s t < 0 ↔ 0 < strcmp t s := by
  induction s generalizing t with
  | nil => cases t <;> simp [strcmp]
  | cons a s ih =>
    cases t with
    | nil => simp [strcmp]
    | cons b t =>
      by_cases hab : a = b
      · subst hab
        simpa [strcmp] using ih t
      · simp only [strcmp, if_neg hab, if_neg (Ne.symm hab)]
        omega

theorem strcmp_trans {s t u : List Char} (hst : strcmp s t ≤ 0) (htu : strcmp t u ≤ 0) :
    strcmp s u ≤ 0 := by
  induction s generalizing t u with
  | nil => cases u <;> simp [strcmp]
  | cons a s ih =>
    cases t with
    | nil => simp [strcmp] at hst
    | cons b t =>
      cases u with
      | nil => simp [strcmp] at htu
      | cons c u =>
        have hab : a.toNat = b.toNat ↔ a = b := Char.toNat_inj
        have hbc : b.toNat = c.toNat ↔ b = c := Char.toNat_inj
        have hac : a.toNat = c.toNat ↔ a = c := Char.toNat_inj
        simp only [strcmp] at hst htu ⊢
        split at hst <;> split at htu <;> split
        · exact ih hst htu
        all_goals grind

/-- Paths in one directory compare as their names do. -/
theorem strcmp_append (p s t : List Char) : strcmp (p ++ s) (p ++ t) = strcmp s t := by
  induction p with
  | nil => rfl
  | cons a p ih => simpa [strcmp] using ih

theorem strcmpAt_totalPreorder (strings : StringHeap) : TotalPreorder (strcmpAt strings) :=
  ⟨fun _ _ => strcmp_swap _ _, fun _ _ _ => strcmp_trans⟩

/-! ## Reading the directory -/

/-- The nodes `xs` of the list hold pointers to the paths of the files `names`. -/
structure Paths.Holds (s : Paths) (xs : List (Addr × VoidPtr)) (names : List (List Char)) :
    Prop where
  represents : Represents s.nodes s.list xs
  strings : xs.map (fun x => s.strings x.2) = names.map fun name => some (loadDir ++ name)
  nonnull : ∀ x ∈ xs, x.2 ≠ NULL

/-- Reference: `concat` (`src/loader_s.c:12`). -/
theorem concat_cases (result : VoidPtr) (s1 s2 : List Char) (strings : StringHeap) :
    concat result s1 s2 strings = .error .mallocInUse ∨
      (result = NULL ∧ concat result s1 s2 strings = .error concatFailed) ∨
      (result ≠ NULL ∧ strings result = none ∧
        concat result s1 s2 strings =
          .ok (Function.update strings result (some (s1 ++ s2)))) := by
  unfold concat
  by_cases hnull : result = NULL
  · rw [if_pos hnull]
    exact .inr (.inl ⟨hnull, rfl⟩)
  · rw [if_neg hnull]
    cases hfree : strings result with
    | some s => exact .inl rfl
    | none => exact .inr (.inr ⟨hnull, rfl, rfl⟩)

variable {s : Paths} {xs : List (Addr × VoidPtr)} {names : List (List Char)}

/-- The path of one more file. Reference: `loader_init` (`src/loader_s.c:49`). -/
theorem Paths.Holds.entry (h : s.Holds xs names) {dir : Dirent} (hfile : ¬ dir.Skipped) :
    loaderInitEntry s dir = .error .mallocInUse ∨
      (dir.filePath = NULL ∧ loaderInitEntry s dir = .error concatFailed) ∨
      ∃ s', loaderInitEntry s dir = .ok s' ∧
        s'.Holds (xs ++ [(dir.node, dir.filePath)]) (names ++ [dir.dName]) := by
  unfold loaderInitEntry
  rw [if_neg hfile]
  rcases concat_cases dir.filePath loadDir dir.dName s.strings with
    hstop | ⟨hnull, hstop⟩ | ⟨hnonnull, hfree, hconcat⟩
  · rw [hstop]
    exact .inl rfl
  · rw [hstop]
    exact .inr (.inl ⟨hnull, rfl⟩)
  · rw [hconcat, Outcome.ok_bind]
    cases hnode : s.nodes dir.node with
    | some c =>
      left
      simp [linkedlistPush, mallocNode, hnode]
    | none =>
      obtain ⟨list, nodes, hpush, hr, -⟩ := linkedlistPush_spec h.represents hnode dir.filePath
      rw [hpush]
      refine .inr (.inr ⟨_, rfl, hr, ?_, ?_⟩)
      · have hkept : ∀ x ∈ xs, Function.update s.strings dir.filePath (some (loadDir ++ dir.dName))
            x.2 = s.strings x.2 := by
          intro x hx
          refine Function.update_of_ne ?_ _ _
          intro hpath
          have hstring : s.strings x.2 ∈ names.map fun name => some (loadDir ++ name) :=
            h.strings ▸ List.mem_map_of_mem hx
          rw [hpath, hfree] at hstring
          simp at hstring
        rw [List.map_append, List.map_append, List.map_congr_left hkept, h.strings]
        simp
      · intro x hx
        rcases List.mem_append.1 hx with hx | hx
        · exact h.nonnull x hx
        · rw [List.mem_singleton.1 hx]
          exact hnonnull

/-- The `while` loop. Reference: `loader_init` (`src/loader_s.c:46`). -/
theorem Paths.Holds.entries (h : s.Holds xs names) (dirs : List Dirent) :
    dirs.foldlM loaderInitEntry s = .error .mallocInUse ∨
      ((∃ dir ∈ dirs, ¬ dir.Skipped ∧ dir.filePath = NULL) ∧
        dirs.foldlM loaderInitEntry s = .error concatFailed) ∨
      ∃ s' xs', dirs.foldlM loaderInitEntry s = .ok s' ∧
        s'.Holds xs' (names ++ fileNames (some dirs)) := by
  induction dirs generalizing s xs names with
  | nil => exact .inr (.inr ⟨s, xs, rfl, by simpa [fileNames] using h⟩)
  | cons dir dirs ih =>
    rw [List.foldlM_cons]
    by_cases hskip : dir.Skipped
    · have hentry : loaderInitEntry s dir = .ok s := by
        unfold loaderInitEntry
        rw [if_pos hskip]
        rfl
      rw [hentry, Outcome.ok_bind]
      have hnames : fileNames (some (dir :: dirs)) = fileNames (some dirs) := by
        simp [fileNames, hskip]
      rw [hnames]
      rcases ih h with hstop | ⟨⟨dir', hmem, hdir'⟩, hstop⟩ | hreturn
      · exact .inl hstop
      · exact .inr (.inl ⟨⟨dir', List.mem_cons_of_mem dir hmem, hdir'⟩, hstop⟩)
      · exact .inr (.inr hreturn)
    · rcases h.entry hskip with hstop | ⟨hnull, hstop⟩ | ⟨s₁, hentry, h₁⟩
      · rw [hstop]
        exact .inl rfl
      · rw [hstop]
        exact .inr (.inl ⟨⟨dir, List.mem_cons_self, hskip, hnull⟩, rfl⟩)
      · rw [hentry, Outcome.ok_bind]
        have hnames : names ++ [dir.dName] ++ fileNames (some dirs) =
            names ++ fileNames (some (dir :: dirs)) := by
          simp [fileNames, hskip]
        rw [← hnames]
        rcases ih h₁ with hstop | ⟨⟨dir', hmem, hdir'⟩, hstop⟩ | hreturn
        · exact .inl hstop
        · exact .inr (.inl ⟨⟨dir', List.mem_cons_of_mem dir hmem, hdir'⟩, hstop⟩)
        · exact .inr (.inr hreturn)

/-! ## The loader over the list -/

/-- The fields of a loader, with a list of paths in the place of its own. -/
def Loader.withPaths {π : Type} {m : Nat} (loader : Loader m) (paths : List π) :
    SeKernel.Loader π m :=
  ⟨paths, loader.pridCounter, loader.maxPrio, loader.mmu⟩

/-- The loader, the nodes and strings of its list, the memory and the scheduler. -/
structure LoadState (ι τ : Type) (m k n : Nat) where
  loader : Loader m
  nodes : Heap
  strings : StringHeap
  ps : PhysicalMemory
  sched : Sched ι τ k n

/-- The same with a list of paths. -/
def LoadState.withPaths {π ι τ : Type} {m k n : Nat} (s : LoadState ι τ m k n) (paths : List π) :
    SeKernel.LoadState π ι τ m k n :=
  ⟨s.loader.withPaths paths, s.ps, s.sched⟩

variable {ι τ : Type} [DecidableEq ι] {m k n : Nat} [NeZero m]

/-- After the pop it goes on as `SeKernel.loaderLoadNextProcess` does with the path that was popped,
or with none. Reference: `loader_load_next_process` (`src/loader_s.c:58`). -/
def loaderLoadNextProcess (mmuMalloc : MmuMalloc) (files : List Char → Option ProgramFile)
    (call : LoadCall ι) (s : LoadState ι τ m k n) : Outcome (Int × LoadState ι τ m k n) := do
  let (currentPath, unloadedElfList, nodes) ← linkedlistPop s.loader.unloadedElfList s.nodes
  let paths := if currentPath = NULL then [] else [currentPath]
  let (ret, t) ← call.exec mmuMalloc (fun path => (s.strings path).bind files) (s.withPaths paths)
  return (ret, ⟨⟨unloadedElfList, t.loader.pridCounter, t.loader.maxPrio, t.loader.mmu⟩, nodes,
    s.strings, t.ps, t.sched⟩)

/-- The pops can go back over the nodes `xs`, which hold pointers to the paths, and `rest` elements
more are counted than these. -/
structure LoadState.Follows (s : LoadState ι τ m k n) (rest : Nat) (xs : List (Addr × VoidPtr))
    (t : SeKernel.LoadState (List Char) ι τ m k n) : Prop where
  backward : BackChain s.nodes none xs
  nodup : (addrs xs).Nodup
  last : s.loader.unloadedElfList.last = back xs none
  length : s.loader.unloadedElfList.length = xs.length + rest
  strings : xs.map (fun x => s.strings x.2) = t.loader.unloadedElfList.map some
  nonnull : ∀ x ∈ xs, x.2 ≠ NULL
  fields : s.withPaths t.loader.unloadedElfList = t

/-- The same answers from the loader over the list and from the loader over the paths, and the same
memory and scheduler. -/
def SameLoads {ο : Type} (x : ο × LoadState ι τ m k n)
    (y : ο × SeKernel.LoadState (List Char) ι τ m k n) : Prop :=
  x.1 = y.1 ∧ x.2.withPaths y.2.loader.unloadedElfList = y.2

variable {mmuMalloc : MmuMalloc} {files : List Char → Option ProgramFile}
  {call : LoadCall ι} {s s' : LoadState ι τ m k n}
  {t : SeKernel.LoadState (List Char) ι τ m k n} {rest : Nat}

/-- A call loads the last path of the list, and only that. Reference: `loader_load_next_process`
(`src/loader_s.c:58`). -/
theorem exec_concat {π π' : Type} {files : π → Option ProgramFile}
    {files' : π' → Option ProgramFile} {path : π} {path' : π'} (paths : List π)
    (hfile : files path = files' path') :
    call.exec mmuMalloc files (s.withPaths (paths ++ [path])) =
      (call.exec mmuMalloc files' (s.withPaths [path'])).map fun r =>
        (r.1, ⟨{ r.2.loader with unloadedElfList := paths }, r.2.ps, r.2.sched⟩) := by
  unfold LoadCall.exec SeKernel.loaderLoadNextProcess Seq.linkedlistPop loaderGetValidPid
    loaderGetValidPriority
  simp only [LoadState.withPaths, Loader.withPaths, List.getLast?_concat, List.dropLast_concat,
    List.getLast?_singleton, hfile]
  by_cases hused : (s.sched.pcbs (.pcb call.pcb)).isSome = true
  · simp only [hused, if_true]
    rfl
  by_cases hprio : s.loader.maxPrio = 0
  · simp only [hused, hprio, if_true]
    rfl
  simp only [hused, hprio, Bool.false_eq_true, if_false, Outcome.pure_eq, Outcome.ok_bind]
  cases loadFile mmuMalloc (files' path') s.loader.mmu s.ps
      (pcbInit call.uninitialised s.loader.pridCounter (call.rand.tmod s.loader.maxPrio)) with
  | error e => rfl
  | ok r =>
    simp only [Outcome.ok_bind]
    cases schedAddToProcessQueue { s.sched with pcbs := s.sched.pcbs.write (.pcb call.pcb) r.2.1 }
        (.pcb call.pcb) with
    | error e => rfl
    | ok sched => rfl

omit [DecidableEq ι] [NeZero m] in
/-- A pop goes back by a node; with more elements counted, only while there is one to go back to.
Reference: `linkedlist_pop` (`src/linkedlist.c:72`). -/
theorem LoadState.Follows.pop {a : Addr} {d : VoidPtr} (h : s.Follows rest (xs ++ [(a, d)]) t)
    (hxs : rest = 0 ∨ xs ≠ []) :
    ∃ list nodes, linkedlistPop s.loader.unloadedElfList s.nodes = .ok (d, list, nodes) ∧
      BackChain nodes none xs ∧ list.last = back xs none ∧ list.length = xs.length + rest := by
  have hlast : s.loader.unloadedElfList.last = some a := by simp [h.last, back]
  have hlength := h.length
  rw [List.length_append, List.length_singleton] at hlength
  push_cast at hlength
  by_cases hnil : xs = []
  · subst hnil
    obtain rfl := hxs.resolve_right (· rfl)
    obtain ⟨nodes, hpop⟩ := linkedlistPop_one h.backward hlast (by simpa using hlength)
    exact ⟨_, nodes, hpop, trivial, rfl, rfl⟩
  · have hpos : 0 < xs.length := List.length_pos_iff.2 hnil
    obtain ⟨nodes, hpop, hback⟩ :=
      linkedlistPop_back h.backward h.nodup hlast (by omega) hnil
    exact ⟨_, nodes, hpop, hback, rfl, by dsimp only; omega⟩

/-- A call loads what the last node that it can go back to holds. Reference:
`loader_load_next_process` (`src/loader_s.c:58`). -/
theorem LoadState.Follows.load (h : s.Follows rest xs t) (hxs : rest = 0 ∨ 1 < xs.length)
    (call : LoadCall ι) :
    Outcome.Rel (fun x y => x.1 = y.1 ∧ ∃ ys, x.2.Follows rest ys y.2 ∧ ys.length = xs.length - 1)
      (loaderLoadNextProcess mmuMalloc files call s) (call.exec mmuMalloc files t) := by
  obtain ⟨paths, hpaths⟩ : ∃ paths, t.loader.unloadedElfList = paths := ⟨_, rfl⟩
  have hstrings := h.strings
  have hfields := h.fields
  rw [hpaths] at hstrings hfields
  subst hfields
  rcases List.eq_nil_or_concat' xs with rfl | ⟨ys, ⟨a, d⟩, rfl⟩
  · obtain rfl := hxs.resolve_right (by simp)
    obtain rfl : paths = [] := by simpa using hstrings.symm
    have hpop : linkedlistPop s.loader.unloadedElfList s.nodes =
        .ok (NULL, s.loader.unloadedElfList, s.nodes) := if_pos h.length
    unfold loaderLoadNextProcess
    rw [hpop]
    exact ⟨rfl, [], h, rfl⟩
  · rcases List.eq_nil_or_concat' paths with rfl | ⟨paths, path, rfl⟩
    · simp at hstrings
    rw [List.map_append, List.map_append] at hstrings
    obtain ⟨hys, hd⟩ := List.append_inj' hstrings rfl
    have hd : s.strings d = some path := (List.cons.inj hd).1
    obtain ⟨list, nodes, hpop, hback, hlast, hlength⟩ := h.pop <| hxs.imp_right fun hlt hnil => by
      simp [hnil] at hlt
    have hnonnull : d ≠ NULL := h.nonnull (a, d) (by simp)
    let files' : VoidPtr → Option ProgramFile := fun path => (s.strings path).bind files
    have hfile : files path = files' d := by
      show files path = (s.strings d).bind files
      rw [hd]
      rfl
    rw [exec_concat paths hfile]
    unfold loaderLoadNextProcess
    rw [hpop, Outcome.ok_bind]
    dsimp only
    rw [if_neg hnonnull]
    cases call.exec mmuMalloc (fun path => (s.strings path).bind files) (s.withPaths [d]) with
    | error e => exact rfl
    | ok r =>
      refine ⟨rfl, ys, ⟨hback, nodup_addrs_left h.nodup, hlast, hlength, hys, fun x hx => ?_, rfl⟩,
        by simp⟩
      exact h.nonnull x (List.mem_append_left _ hx)

/-- With more elements counted, the pop of the first node follows `NULL`. Reference:
`loader_load_next_process` (`src/loader_s.c:59`). -/
theorem LoadState.Follows.load_first {a : Addr} {d : VoidPtr} (h : s.Follows rest [(a, d)] t)
    (hrest : 0 < rest) :
    loaderLoadNextProcess mmuMalloc files call s = .error .nullDeref := by
  have hlength := h.length
  rw [List.length_singleton] at hlength
  unfold loaderLoadNextProcess
  rw [linkedlistPop_front h.backward h.last (by omega)]
  rfl

/-- Calls load what the list goes back over. -/
theorem LoadState.Follows.run (h : s.Follows rest xs t) (calls : List (LoadCall ι))
    (hcalls : rest = 0 ∨ calls.length < xs.length) :
    Outcome.Rel SameLoads (Machine.run (loaderLoadNextProcess mmuMalloc files) calls s)
      (Machine.run (LoadCall.exec mmuMalloc files) calls t) := by
  induction calls generalizing s t xs with
  | nil => exact ⟨rfl, h.fields⟩
  | cons call calls ih =>
    rw [List.length_cons] at hcalls
    rw [Outcome.run_cons, Outcome.run_cons]
    refine (h.load (by omega) call).bind fun x y ⟨hret, ys, hfollows, hys⟩ => ?_
    refine (ih hfollows (by omega)).bind fun x' y' ⟨hrets, hfields⟩ => ?_
    exact ⟨congrArg₂ List.cons hret hrets, hfields⟩

/-- With more elements counted, the calls come to `NULL` when they have gone back over all. -/
theorem LoadState.Follows.stops (h : s.Follows rest xs t) (hrest : 0 < rest) (hxs : xs ≠ [])
    (calls : List (LoadCall ι)) (hcalls : xs.length ≤ calls.length) (r : List Int × _) :
    Machine.run (loaderLoadNextProcess mmuMalloc files) calls s ≠ .ok r := by
  have hpos : 0 < xs.length := List.length_pos_iff.2 hxs
  induction calls generalizing s t xs r with
  | nil =>
    rw [List.length_nil] at hcalls
    omega
  | cons call calls ih =>
    intro hrun
    rw [Outcome.run_cons] at hrun
    obtain ⟨x, hfirst, hrun⟩ := Outcome.bind_eq_ok.1 hrun
    obtain ⟨r', hrest', -⟩ := Outcome.bind_eq_ok.1 hrun
    by_cases hone : xs.length = 1
    · obtain ⟨⟨a, d⟩, rfl⟩ := List.length_eq_one_iff.1 hone
      rw [h.load_first hrest] at hfirst
      cases hfirst
    · have hrel : Outcome.Rel _ (loaderLoadNextProcess mmuMalloc files call s)
          (call.exec mmuMalloc files t) := h.load (.inr (by omega)) call
      rw [hfirst] at hrel
      obtain ⟨y, -, -, ys, hfollows, hys⟩ := hrel.of_ok_left
      rw [List.length_cons] at hcalls
      have hpos' : 0 < ys.length := by omega
      exact ih hfollows (List.length_pos_iff.1 hpos') (by omega) r' hpos' hrest'

/-! ## The whole -/

/-- Up to the last node of a stable sort: no node is greater, and those that come after it in the
list are less. -/
theorem stableSort_last {compare : VoidPtr → VoidPtr → Int} {ys : List (Addr × VoidPtr)}
    (hcompare : TotalPreorder compare) (hsort : StableSort compare xs ys) (hnodup : xs.Nodup) :
    ∃ us vs, xs = us ++ vs ∧ (us = [] → vs = []) ∧ us.getLast? = ys.getLast? ∧
      ∀ z, us.getLast? = some z →
        (∀ x ∈ us, compare x.2 z.2 ≤ 0) ∧ ∀ x ∈ vs, compare x.2 z.2 < 0 := by
  rcases List.eq_nil_or_concat' ys with rfl | ⟨ss, z, rfl⟩
  · exact ⟨[], [], hsort.perm.nil_eq.symm, fun _ => rfl, rfl, nofun⟩
  obtain ⟨us, vs, hcut⟩ := List.append_of_mem (hsort.perm.subset (by simp : z ∈ ss ++ [z]))
  obtain rfl : xs = us ++ [z] ++ vs := hcut.trans (List.append_cons us z vs)
  have hgreatest : ∀ x ∈ us ++ [z] ++ vs, compare x.2 z.2 ≤ 0 := by
    intro x hx
    rcases List.mem_append.1 (hsort.perm.symm.subset hx) with hx | hx
    · exact (List.pairwise_append.1 hsort.ordered).2.2 x hx z (List.mem_singleton_self z)
    · have hswap := hcompare.swap z.2 z.2
      rw [List.mem_singleton.1 hx]
      omega
  refine ⟨us ++ [z], vs, rfl, by simp, by simp, fun z' hz' => ?_⟩
  obtain rfl : z = z' := by simpa using hz'
  refine ⟨fun x hx => hgreatest x (List.mem_append_left vs hx), fun x hx => ?_⟩
  have hle := hgreatest x (List.mem_append_right _ hx)
  have hswap := hcompare.swap x.2 z.2
  have hswap' := hcompare.swap z.2 x.2
  by_contra hequal
  -- equal nodes stay in order, and nothing comes after `z`
  have hpair : [z, x].Sublist (us ++ [z] ++ vs) :=
    (List.sublist_append_right us [z]).append (List.singleton_sublist.2 hx)
  obtain ⟨l₁, l₂, hl, hss, hz⟩ := List.sublist_append_iff.1 (hsort.stable z x hpair (by omega))
  have hmem : z ∈ ss := by
    cases l₁ with
    | nil =>
      obtain rfl : [z, x] = l₂ := hl
      simpa using hz.length_le
    | cons z' l₁ =>
      obtain rfl := (List.cons.inj hl).1
      exact hss.subset List.mem_cons_self
  have hdisjoint := (List.nodup_append.1 (hsort.perm.nodup_iff.2 hnodup)).2.2
  exact hdisjoint z hmem z (List.mem_singleton_self z) rfl

/-- `us` are the names up to the greatest, to the last of them if there are more, and `vs` the names
after it. -/
structure UpToGreatest (names us vs : List (List Char)) : Prop where
  split : names = us ++ vs
  nonempty : us = [] → vs = []
  greatest : ∀ z, us.getLast? = some z →
    (∀ name ∈ us, strcmp name z ≤ 0) ∧ ∀ name ∈ vs, strcmp name z < 0

theorem strcmpAt_eq {strings : StringHeap} {x y : VoidPtr} {name name' : List Char}
    (hx : strings x = some (loadDir ++ name)) (hy : strings y = some (loadDir ++ name')) :
    strcmpAt strings x y = strcmp name name' := by
  simp [strcmpAt, hx, hy, strcmp_append]

/-- The pointers lead to paths, so that what holds of the paths' strings holds of the names. -/
theorem forall_names {strings : StringHeap} (hstrings : xs.map (fun x => strings x.2) =
      names.map fun name => some (loadDir ++ name)) {P : List Char → Prop}
    (h : ∀ x ∈ xs, ∀ name, strings x.2 = some (loadDir ++ name) → P name) :
    ∀ name ∈ names, P name := by
  intro name hname
  have hmem : some (loadDir ++ name) ∈ names.map fun name => some (loadDir ++ name) :=
    List.mem_map_of_mem hname
  rw [← hstrings] at hmem
  obtain ⟨x, hx, hstring⟩ := List.mem_map.1 hmem
  exact h x hx name hstring

/-- After the sort the pops go back over the files up to the greatest name, and the others are
counted. Reference: `merge_sort` (`src/linkedlist.c:7`). -/
theorem Paths.Holds.sorted {s : Paths} (h : s.Holds xs names) :
    ∃ list nodes us vs, mergeSort (s.list.length.toNat + 1) s.list (strcmpAt s.strings) s.nodes =
        .ok (list, nodes) ∧ UpToGreatest names us vs ∧
      ∀ {ι τ : Type} {m k n : Nat} (loader : Loader m) ps (sched : Sched ι τ k n),
        loader.unloadedElfList = list → ∃ ys, ys.length = us.length ∧
          LoadState.Follows ⟨loader, nodes, s.strings, ps, sched⟩ vs.length ys
            ⟨loader.withPaths (us.map (loadDir ++ ·)), ps, sched⟩ := by
  have hr := h.represents
  obtain ⟨nodes, hsort, -, hrelinked⟩ :=
    mergeSort_spec (strcmpAt s.strings) hr.seg.chain hr.nodup hr.first hr.lt_fuel
  have hback := hr.seg.backChain.relinked hrelinked
  have hstable := stableSort_mergeSort (strcmpAt_totalPreorder s.strings) xs
  obtain ⟨us, vs, rfl, hnil, hlast, hgreatest⟩ := stableSort_last
    (strcmpAt_totalPreorder s.strings) hstable (List.Nodup.of_map _ hr.nodup)
  have hstrings := h.strings
  rw [List.map_append] at hstrings
  obtain ⟨us', vs', rfl, hus, hvs⟩ := List.map_eq_append_iff.1 hstrings.symm
  have hlength := congrArg List.length hus
  have hlength' := congrArg List.length hvs
  simp only [List.length_map] at hlength hlength'
  refine ⟨_, nodes, us', vs', hsort, ⟨rfl, fun hempty => ?_, fun name hname => ?_⟩,
    fun loader ps sched hlist => ⟨us, hlength.symm, ?_⟩⟩
  · rw [hempty, List.length_nil] at hlength
    rw [hnil (List.length_eq_zero_iff.1 hlength.symm), List.length_nil] at hlength'
    exact List.length_eq_zero_iff.1 hlength'
  · have hmap := congrArg List.getLast? hus
    rw [List.getLast?_map, List.getLast?_map, hname] at hmap
    obtain ⟨z, hz, hstring⟩ := Option.map_eq_some_iff.1 hmap.symm
    obtain ⟨hle, hlt⟩ := hgreatest z hz
    refine ⟨forall_names hus.symm fun x hx name' hx' => ?_,
      forall_names hvs.symm fun x hx name' hx' => ?_⟩
    · rw [← strcmpAt_eq hx' hstring]
      exact hle x hx
    · rw [← strcmpAt_eq hx' hstring]
      exact hlt x hx
  · refine ⟨(backChain_append.1 hback).1, nodup_addrs_left hr.nodup, ?_, ?_, ?_, ?_, rfl⟩
    · rw [hlist]
      dsimp only
      rw [back_none_eq_getLast?, back_none_eq_getLast?, addrs, addrs, List.getLast?_map,
        List.getLast?_map, hlast]
    · rw [hlist]
      dsimp only
      rw [hr.length, List.length_append, hlength']
      push_cast
      rfl
    · rw [← hus]
      exact List.map_map.symm
    · exact fun x hx => h.nonnull x (List.mem_append_left vs hx)

end SeKernel.Nodes
