import SeKernel.Loader.Basic
import SeKernel.Virtual.Simulation

/-!
# The image of a loaded process

Through a page table of distinct frames that are apart from the table, the words of the data lines
are laid over those of the table's virtual machine (`loadWords_overlays`), as long as `getline` has
room for the lines behind the moved pointer. `cpu_snapshot_init` has meanwhile cleared the PCB's
memory map, so `__load_file` goes through the table at address 0, and the PCB it leaves describes
the program only in one corner case (`loadFile_loads_iff`).
-/

namespace SeKernel

/-- The number of frames for `words` words. -/
def framesFor (words : Nat) : Nat := (4 * words + 255) / 256

/-- The words of the lines before the first one that has none. -/
def lineWords : List (List Char) → List Word
  | [] => []
  | line :: lines =>
    match hexStringToInt32 (cutLine line) with
    | none => []
    | some word => word :: lineWords lines

/-- The lines that `__load_file` reads: it stops at the first one that has no word. -/
def readLines (lines : List (List Char)) : List (List Char) :=
  lines.take ((lineWords lines).length + 1)

/-- Words laid over those of a memory, from the first one on. -/
def overlay {k : Nat} (ws : List Word) (words : Fin k → Word) : Fin k → Word :=
  fun i => ws.getD i (words i)

/-- What `__load_file` leaves of a PCB's snapshot. -/
def loadedSnapshot (snapshot : CpuSnapshot) : CpuSnapshot :=
  ⟨0, 0, fun i => if i.val < 13 then 0 else snapshot.R i, snapshot.cc⟩

/-- The PCB after header lines with these addresses of the code and the data. -/
def numberedPcb (pcb : Pcb) (code data : Word) : Pcb :=
  { pcb with
    status := code.toInt
    memoryMap := ⟨data, 0, 0⟩
    cpuSnapshot := loadedSnapshot pcb.cpuSnapshot }

variable {pages m left : Nat} [NeZero m] {memory : Memory} {ptbr : Word} {mmu : Mmu m}
  {line text data : List Char} {lines : List (List Char)} {j c d : Nat}

/-! ## The header lines -/

/-- A well-formed header line is read when `getline` has room for it and four times its number is an
`int`. Reference: `__load_file` (`src/loader_s.c:95`). -/
theorem HeaderLine.loadHeader_eq_ok (h : HeaderLine line c) {r : Word × Nat} :
    loadHeader left line = .ok r ↔
      line.length < left ∧ c < 2 ^ 29 ∧ r = (BitVec.ofNat 32 (4 * c), left - headerSkip line) := by
  have hofInt : BitVec.ofInt 32 ((c : Int) * 4) = BitVec.ofNat 32 (4 * c) := by
    rw [Nat.mul_comm, ← BitVec.ofInt_natCast]
    push_cast
    rfl
  unfold loadHeader getline
  by_cases hroom : line.length < left
  · rw [if_pos hroom, Outcome.pure_eq, Outcome.ok_bind, h.headerNumber]
    constructor
    · intro hload
      obtain ⟨number, hnumber, hload⟩ := Outcome.bind_eq_ok.1 hload
      obtain ⟨address, haddress, hload⟩ := Outcome.bind_eq_ok.1 hload
      obtain ⟨-, rfl⟩ := asInt_eq_ok.1 hnumber
      obtain ⟨hint, rfl⟩ := asInt_eq_ok.1 haddress
      cases hload
      exact ⟨hroom, by omega, by rw [hofInt]⟩
    · rintro ⟨-, hc, rfl⟩
      have hnumber : asInt (c : Int) = .ok (c : Int) := asInt_eq_ok.2 ⟨by omega, rfl⟩
      have haddress : asInt ((c : Int) * 4) = .ok ((c : Int) * 4) := asInt_eq_ok.2 ⟨by omega, rfl⟩
      rw [hnumber, Outcome.ok_bind, haddress, Outcome.ok_bind, hofInt, Outcome.pure_eq]
  · rw [if_neg hroom]
    constructor
    · exact fun hload => by cases hload
    · exact fun hload => absurd hload.1 hroom

/-- The header lines leave neither the page table nor the address of the code in the PCB.
Reference: `__load_file` (`src/loader_s.c:95`). -/
theorem loadHeaders_eq_ok {block : Nat} {pcb : Pcb} {r : Pcb × Nat} :
    loadHeaders block pcb text data = .ok r ↔
      ∃ code left₁ dataAddress left, loadHeader block text = .ok (code, left₁) ∧
        loadHeader left₁ data = .ok (dataAddress, left) ∧
        r = (numberedPcb pcb code dataAddress, left) := by
  unfold loadHeaders
  constructor
  · intro h
    obtain ⟨⟨code, left₁⟩, htext, h⟩ := Outcome.bind_eq_ok.1 h
    obtain ⟨⟨dataAddress, left⟩, hdata, h⟩ := Outcome.bind_eq_ok.1 h
    rw [cpuSnapshotInit_statusOffset] at h
    cases h
    exact ⟨code, left₁, dataAddress, left, htext, hdata, rfl⟩
  · rintro ⟨code, left₁, dataAddress, left, htext, hdata, rfl⟩
    rw [htext, Outcome.ok_bind]
    dsimp only
    rw [cpuSnapshotInit_statusOffset]
    exact Outcome.bind_eq_ok.2 ⟨_, hdata, rfl⟩

/-! ## The words -/

omit [NeZero m] in
theorem virtualAddress_offBoundary (h : PageTable memory ptbr pages) (hj : j < 64 * pages) :
    virtualAddress j ∈ offBoundary pages := by
  have haddress := h.virtualAddress_toNat ⟨j, hj⟩
  show (virtualAddress j).toNat / 256 ≠ pages
  rw [haddress]
  dsimp only
  omega

variable (m) in
/-- An empty TLB is sound. -/
theorem tlbSound_tlbFlush (pages : Nat) (memory : Memory) (ptbr : Word) :
    TlbSound pages memory ptbr (tlbFlush m) :=
  tlbCache_sound_of_inactive (fun _ => rfl) _ _ _

/-- A word of the table is written through it, whatever the TLB holds of the table. -/
theorem TlbSound.resolves_word (htlb : TlbSound pages memory ptbr mmu)
    (h : PageTable memory ptbr pages) (hj : j < 64 * pages) :
    ∃ mmu', mmuResolve mmu memory ptbr (virtualAddress j) =
        .ok (physicalAddress memory ptbr (virtualAddress j), mmu') ∧
      TlbSound pages memory ptbr mmu' := by
  obtain ⟨hres, hkeep⟩ := htlb.resolves h (virtualAddress_offBoundary h hj)
  unfold ResolvesByTable at hres
  rw [if_pos (h.pageNumber_virtualAddress ⟨j, hj⟩)] at hres
  cases hcall : mmuResolve mmu memory ptbr (virtualAddress j) with
  | error e =>
    rw [hcall] at hres
    cases hres
  | ok r =>
    obtain ⟨p, mmu'⟩ := r
    rw [hcall] at hres
    obtain rfl : p = _ := Except.ok.inj hres
    exact ⟨mmu', rfl, hkeep _ _ hcall⟩

omit [NeZero m] in
/-- A write through the table changes one word of the machine. -/
theorem PageTable.view_words_pmWriteWord (h : PageTable memory ptbr pages) (hj : j < 64 * pages)
    (cpu : CpuSnapshot) (w : Word) :
    (view pages (pmWriteWord memory (physicalAddress memory ptbr (virtualAddress j)) w) ptbr
        cpu).words =
      Function.update (view pages memory ptbr cpu).words ⟨j, hj⟩ w := by
  have hstore := h.view_store (h.pageNumber_virtualAddress ⟨j, hj⟩) cpu w
  have haddress : (virtualAddress j).toNat / 4 = j := by
    rw [h.virtualAddress_toNat ⟨j, hj⟩]
    dsimp only
    omega
  unfold VirtualMachine.store at hstore
  rw [dif_pos (by rw [haddress]; exact hj)] at hstore
  have hwords := congrArg VirtualMachine.words (Except.ok.inj hstore)
  simp only [haddress] at hwords
  exact hwords.symm

omit [NeZero m] in
theorem virtualAddress_succ (i : Nat) : virtualAddress i + 4 = virtualAddress (i + 1) := by
  rw [virtualAddress, virtualAddress, Nat.mul_add, BitVec.ofNat_add]
  rfl

omit [NeZero m] in
theorem readLines_cons {w : Word} (h : hexStringToInt32 (cutLine line) = some w) :
    readLines (line :: lines) = line :: readLines lines := by
  simp [readLines, lineWords, h]

omit [NeZero m] in
theorem readLines_cons_none (h : hexStringToInt32 (cutLine line) = none) :
    readLines (line :: lines) = [line] := by
  simp [readLines, lineWords, h]

/-- When the loop returns, `getline` had room for the lines that were read, and the answer says
whether these are all lines. Reference: `__load_file` (`src/loader_s.c:112`). -/
theorem loadWords_returns {va : Word} {r : Int × Mmu m × Memory}
    (h : loadWords ptbr left lines va mmu memory = .ok r) :
    (∀ line ∈ readLines lines, line.length < left) ∧
      r.1 = if (lineWords lines).length = lines.length then 1 else 0 := by
  induction lines generalizing va mmu memory with
  | nil =>
    cases h
    exact ⟨by simp [readLines], rfl⟩
  | cons line lines ih =>
    obtain ⟨_, hline, h⟩ := Outcome.bind_eq_ok.1 h
    have hroom : line.length < left := by
      unfold getline at hline
      by_contra hnot
      rw [if_neg hnot] at hline
      cases hline
    cases hword : hexStringToInt32 (cutLine line) with
    | none =>
      rw [hword] at h
      cases h
      rw [readLines_cons_none hword]
      exact ⟨by simpa using hroom, by simp [lineWords, hword]⟩
    | some w =>
      rw [hword] at h
      obtain ⟨⟨address, mmu₁⟩, -, h⟩ := Outcome.bind_eq_ok.1 h
      obtain ⟨hfits, hret⟩ := ih h
      rw [readLines_cons hword, hret]
      exact ⟨List.forall_mem_cons.2 ⟨hroom, hfits⟩, by simp [lineWords, hword]⟩

/-- From word `j` on, the words of the lines are laid over those of the table, up to the first line
that has none; nothing else changes in the memory, and the TLB stays as sound as it was. Reference:
`__load_file` (`src/loader_s.c:112`). -/
theorem loadWords_shows (h : PageTable memory ptbr pages) (htlb : TlbSound pages memory ptbr mmu)
    (hroom : j + lines.length ≤ 64 * pages) (hfits : ∀ line ∈ readLines lines, line.length < left) :
    ∃ mmu' memory', loadWords ptbr left lines (virtualAddress j) mmu memory =
        .ok (if (lineWords lines).length = lines.length then 1 else 0, mmu', memory') ∧
      TlbSound pages memory' ptbr mmu' ∧ AgreeOn (listedFrames memory ptbr)ᶜ memory memory' ∧
      ∀ cpu (i : Fin (64 * pages)), (view pages memory' ptbr cpu).words i =
        if i.val < j then (view pages memory ptbr cpu).words i
        else (lineWords lines).getD (i.val - j) ((view pages memory ptbr cpu).words i) := by
  induction lines generalizing j mmu memory with
  | nil =>
    refine ⟨mmu, memory, rfl, htlb, .refl _ _, fun cpu i => ?_⟩
    simp [lineWords]
  | cons line lines ih =>
    rw [List.length_cons] at hroom
    cases hword : hexStringToInt32 (cutLine line) with
    | none =>
      rw [readLines_cons_none hword] at hfits
      refine ⟨mmu, memory, ?_, htlb, .refl _ _, fun cpu i => ?_⟩
      · simp [loadWords, getline, hfits line (by simp), lineWords, hword]
      · simp [lineWords, hword]
    | some w =>
      rw [readLines_cons hword, List.forall_mem_cons] at hfits
      have hline : getline left line = .ok () := if_pos hfits.1
      have hj : j < 64 * pages := by omega
      have hpage := h.pageNumber_virtualAddress ⟨j, hj⟩
      obtain ⟨mmu₁, hres, htlb₁⟩ := htlb.resolves_word h hj
      have hwritten := PageTable.agree_pmWriteWord (m := memory) hpage w
      have htable := h.agree_table hwritten
      obtain ⟨mmu', memory', hload, htlb', hagree, hwords⟩ :=
        ih (j := j + 1) (h.congr htable) (htlb₁.congr h htable) (by omega) hfits.2
      rw [listedFrames_congr htable] at hagree
      refine ⟨mmu', memory', ?_, htlb', hwritten.trans hagree, fun cpu i => ?_⟩
      · simp only [loadWords, lineWords, hline, hword, hres, Outcome.ok_bind, virtualAddress_succ,
          hload, List.length_cons, Nat.add_right_cancel_iff]
      · rw [hwords cpu i, h.view_words_pmWriteWord hj cpu w]
        simp only [lineWords, hword]
        rcases Nat.lt_trichotomy i.val j with hij | hij | hij
        · have hne : i ≠ ⟨j, hj⟩ := fun heq => by simp [heq] at hij
          rw [if_pos (by omega), if_pos hij, Function.update_of_ne hne]
        · obtain rfl : i = ⟨j, hj⟩ := Fin.ext hij
          rw [if_pos (by omega), if_neg (by omega), Function.update_self, Nat.sub_self,
            List.getD_cons_zero]
        · have hne : i ≠ ⟨j, hj⟩ := fun heq => by simp [heq] at hij
          obtain ⟨d, hd⟩ : ∃ d, i.val - j = d + 1 := ⟨i.val - j - 1, by omega⟩
          rw [if_neg (by omega), if_neg (by omega), Function.update_of_ne hne, hd,
            List.getD_cons_succ, show i.val - (j + 1) = d by omega]

/-- The words of all lines are laid over those of the table. -/
theorem loadWords_overlays (h : PageTable memory ptbr pages)
    (htlb : TlbSound pages memory ptbr mmu) (hroom : lines.length ≤ 64 * pages)
    (hfits : ∀ line ∈ readLines lines, line.length < left) :
    ∃ mmu' memory', loadWords ptbr left lines 0 mmu memory =
        .ok (if (lineWords lines).length = lines.length then 1 else 0, mmu', memory') ∧
      TlbSound pages memory' ptbr mmu' ∧ AgreeOn (listedFrames memory ptbr)ᶜ memory memory' ∧
      ∀ cpu, view pages memory' ptbr cpu =
        ⟨cpu, overlay (lineWords lines) (view pages memory ptbr cpu).words⟩ := by
  have hroom₀ : 0 + lines.length ≤ 64 * pages := by omega
  obtain ⟨mmu', memory', hload, htlb', hagree, hwords⟩ := loadWords_shows h htlb hroom₀ hfits
  refine ⟨mmu', memory', hload, htlb', hagree, fun cpu => VirtualMachine.ext rfl ?_⟩
  funext i
  rw [hwords cpu i, if_neg (Nat.not_lt_zero _)]
  rfl

/-! ## The file -/

/-- An empty TLB is not stale. -/
theorem notStale_tlbFlush (memory : Memory) (ptbr va : Word) :
    NotStale (tlbFlush m) memory ptbr va := by
  intro e he
  simp [tlbGetMatch, tlbFlush] at he

omit [NeZero m] in
/-- The words of data lines. -/
theorem lineWords_of_dataLines {ws : List Word} (h : List.Forall₂ DataLine lines ws) :
    lineWords lines = ws := by
  induction h with
  | nil => rfl
  | cons hline _ ih => rw [lineWords, hline.hexStringToInt32, ih]

section

variable {mmuMalloc : MmuMalloc} {file : ProgramFile} {r : Int} {ps ps' : PhysicalMemory}
  {code dataAddress : Word} {left₁ : Nat}

/-- Whatever page table `mmu_malloc` answers, the words of the file are laid over those of the table
at address 0. Reference: `__load_file` (`src/loader_s.c:73`). -/
theorem loadFile_shows (pcb : Pcb) (hfile : file.lines = text :: data :: lines)
    (htext : loadHeader file.block text = .ok (code, left₁))
    (hdata : loadHeader left₁ data = .ok (dataAddress, left))
    (hfits : ∀ line ∈ readLines lines, line.length < left)
    (hmalloc : mmuMalloc ps (BitVec.ofNat 32 lines.length) = .ok (r, ptbr, ps'))
    (h : PageTable ps'.memory 0 pages) (htlb : TlbSound pages ps'.memory 0 mmu)
    (hroom : lines.length ≤ 64 * pages) :
    ∃ mmu' memory', loadFile mmuMalloc (some file) mmu ps pcb =
        .ok (if (lineWords lines).length = lines.length then 1 else 0,
          numberedPcb pcb code dataAddress, mmu', { ps' with memory := memory' }) ∧
      ((lineWords lines).length = lines.length → mmu' = tlbFlush m) ∧
      TlbSound pages memory' 0 mmu' ∧ AgreeOn (listedFrames ps'.memory 0)ᶜ ps'.memory memory' ∧
      ∀ cpu, view pages memory' 0 cpu =
        ⟨cpu, overlay (lineWords lines) (view pages ps'.memory 0 cpu).words⟩ := by
  obtain ⟨mmu', memory', hload, htlb', hagree, hwords⟩ := loadWords_overlays h htlb hroom hfits
  have hheaders (pcb : Pcb) := loadHeaders_eq_ok.2 ⟨code, left₁, dataAddress, left, htext, hdata,
    Eq.refl (numberedPcb pcb code dataAddress, left)⟩
  rw [loadFile_program hfile, hmalloc, Outcome.ok_bind, hheaders, Outcome.ok_bind,
    show (numberedPcb _ code dataAddress).memoryMap.pgb = 0 from rfl, hload, Outcome.ok_bind]
  by_cases hall : (lineWords lines).length = lines.length
  · rw [if_pos hall]
    exact ⟨tlbFlush m, memory', rfl, fun _ => rfl, tlbSound_tlbFlush m _ _ _, hagree, hwords⟩
  · rw [if_neg hall]
    exact ⟨mmu', memory', rfl, fun h => absurd h hall, htlb', hagree, hwords⟩

/-- What a load that returns has met. Reference: `__load_file` (`src/loader_s.c:73`). -/
theorem loadFile_returns {pcb pcb' : Pcb} {mmu' : Mmu m} {ret : Int} {ps'' : PhysicalMemory}
    (hfile : file.lines = text :: data :: lines)
    (hload : loadFile mmuMalloc (some file) mmu ps pcb = .ok (ret, pcb', mmu', ps'')) :
    ∃ r ptbr ps' code left₁ dataAddress left,
      mmuMalloc ps (BitVec.ofNat 32 lines.length) = .ok (r, ptbr, ps') ∧
      loadHeader file.block text = .ok (code, left₁) ∧
      loadHeader left₁ data = .ok (dataAddress, left) ∧
      (∀ line ∈ readLines lines, line.length < left) ∧
      (ret = if (lineWords lines).length = lines.length then 1 else 0) ∧
      pcb' = numberedPcb pcb code dataAddress ∧ ps''.freeBlocks = ps'.freeBlocks := by
  rw [loadFile_program hfile] at hload
  obtain ⟨⟨r, ptbr, ps'⟩, hmalloc, hload⟩ := Outcome.bind_eq_ok.1 hload
  obtain ⟨headed, hheaders, hload⟩ := Outcome.bind_eq_ok.1 hload
  obtain ⟨code, left₁, dataAddress, left, htext, hdata, rfl⟩ := loadHeaders_eq_ok.1 hheaders
  obtain ⟨loaded, hwords, hload⟩ := Outcome.bind_eq_ok.1 hload
  obtain ⟨hfits, hret⟩ := loadWords_returns hwords
  refine ⟨r, ptbr, ps', code, left₁, dataAddress, left, hmalloc, htext, hdata, hfits, ?_⟩
  by_cases hall : (lineWords lines).length = lines.length
  · rw [if_pos hall] at hret ⊢
    rw [hret] at hload
    cases hload
    exact ⟨rfl, rfl, rfl⟩
  · rw [if_neg hall] at hret ⊢
    rw [hret] at hload
    cases hload
    exact ⟨rfl, rfl, rfl⟩

end

/-! ## The PCB -/

/-- The PCB describes the program with the header numbers `c` and `d` in the table at `ptbr`, its
words are in place, and the TLB is empty. -/
structure Loaded (ptbr : Word) (c d : Nat) (ws : List Word) (pcb : Pcb) (mmu : Mmu m)
    (memory : Memory) : Prop where
  memoryMap : pcb.memoryMap = ⟨BitVec.ofNat 32 (4 * d), BitVec.ofNat 32 (4 * c), ptbr⟩
  PC : pcb.cpuSnapshot.PC = BitVec.ofNat 32 (4 * c)
  IR : pcb.cpuSnapshot.IR = 0
  cc : pcb.cpuSnapshot.cc = 0
  R : ∀ i, pcb.cpuSnapshot.R i = 0
  words : ∀ i w, ws[i]? = some w → ∃ address mmu',
    mmuResolve (tlbFlush m) memory ptbr (virtualAddress i) = .ok (address, mmu') ∧
      pmReadWord memory address = w
  flushed : mmu = tlbFlush m

/-- The PCB that the header lines leave describes the program in one corner case only. Reference:
`cpu_snapshot_init` (`src/pcb_s.c:21`). -/
theorem Loaded.of_numberedPcb {ws : List Word} {pcb : Pcb} {data : Word} (hc : c < 2 ^ 29)
    (h : Loaded ptbr c d ws (numberedPcb pcb (BitVec.ofNat 32 (4 * c)) data) mmu memory) :
    ptbr = 0 ∧ c = 0 ∧ pcb.cpuSnapshot.cc = 0 ∧ ∀ i, 13 ≤ i.val → pcb.cpuSnapshot.R i = 0 := by
  have hmap := h.memoryMap
  simp only [numberedPcb, MemoryMap.mk.injEq] at hmap
  have hzero : 0 = 4 * c := by
    have hmod := congrArg BitVec.toNat hmap.2.1
    rwa [BitVec.toNat_ofNat, Nat.mod_eq_of_lt (by omega)] at hmod
  refine ⟨hmap.2.2.symm, by omega, h.cc, fun i hi => ?_⟩
  simpa [numberedPcb, loadedSnapshot, Nat.not_lt.2 hi] using h.R i

/-- In that case it does, when the words of the program lie over those of the table at address 0.
Reference: `cpu_snapshot_init` (`src/pcb_s.c:21`). -/
theorem Loaded.numberedPcb {ws : List Word} {pcb : Pcb} {words : Fin (64 * pages) → Word}
    (h : PageTable memory 0 pages) (hlength : ws.length ≤ 64 * pages)
    (hwords : ∀ cpu, view pages memory 0 cpu = ⟨cpu, overlay ws words⟩)
    (hcc : pcb.cpuSnapshot.cc = 0) (hR : ∀ i, 13 ≤ i.val → pcb.cpuSnapshot.R i = 0) :
    Loaded 0 0 d ws (SeKernel.numberedPcb pcb 0 (BitVec.ofNat 32 (4 * d))) (tlbFlush m) memory := by
  refine ⟨rfl, rfl, rfl, hcc, fun i => ?_, fun i w hi => ?_, rfl⟩
  · by_cases hi : i.val < 13
    · simp [SeKernel.numberedPcb, loadedSnapshot, hi]
    · simp [SeKernel.numberedPcb, loadedSnapshot, hi, hR i (by omega)]
  · have hlt : i < 64 * pages := by
      have hlen := (List.getElem?_eq_some_iff.1 hi).1
      omega
    obtain ⟨mmu', hres, -⟩ := (tlbSound_tlbFlush m _ _ _).resolves_word h hlt
    have hword := congrArg (fun v => VirtualMachine.words v ⟨i, hlt⟩) (hwords pcb.cpuSnapshot)
    refine ⟨_, _, hres, hword.trans ?_⟩
    simp [overlay, List.getD_eq_getElem?_getD, hi]

/-- `__load_file` loads the program of a well-formed file if and only if the page table is at
address 0, the code starts at virtual address 0, the address of the data is an `int`, `getline`'s
block has room for each line behind the space of the header lines before it, and the registers that
it does not clear were 0 before. Reference: `__load_file` (`src/loader_s.c:73`),
`cpu_snapshot_init` (`src/pcb_s.c:21`). -/
theorem loadFile_loads_iff {mmuMalloc : MmuMalloc} {file : ProgramFile} {ws : List Word}
    {ps ps' : PhysicalMemory} {pcb : Pcb} (hfile : file.lines = text :: data :: lines)
    (htext : HeaderLine text c) (hdata : HeaderLine data d)
    (hlines : List.Forall₂ DataLine lines ws)
    (hmalloc : mmuMalloc ps (BitVec.ofNat 32 lines.length) = .ok (0, ptbr, ps'))
    (htable : PageTable ps'.memory ptbr (framesFor lines.length)) :
    (∃ pcb' mmu' ps'', loadFile mmuMalloc (some file) (tlbFlush m) ps pcb =
        .ok (1, pcb', mmu', ps'') ∧ Loaded ptbr c d ws pcb' mmu' ps''.memory) ↔
      ptbr = 0 ∧ c = 0 ∧ d < 2 ^ 29 ∧ headerSkip text + data.length < file.block ∧
        (∀ line ∈ lines, headerSkip text + headerSkip data + line.length < file.block) ∧
        pcb.cpuSnapshot.cc = 0 ∧ ∀ i, 13 ≤ i.val → pcb.cpuSnapshot.R i = 0 := by
  have hall : lineWords lines = ws := lineWords_of_dataLines hlines
  have hlength := hlines.length_eq
  have hread : readLines lines = lines := List.take_of_length_le (by rw [hall]; omega)
  constructor
  · rintro ⟨pcb', mmu', ps'', hload, hloaded⟩
    obtain ⟨r, ptbr', ps₁, code, left₁, dataAddress, left, -, hcode, haddress, hfits, -, rfl, -⟩ :=
      loadFile_returns hfile hload
    obtain ⟨-, hc, hcode⟩ := htext.loadHeader_eq_ok.1 hcode
    obtain ⟨hroom, hd, haddress⟩ := hdata.loadHeader_eq_ok.1 haddress
    cases hcode
    cases haddress
    obtain ⟨hptbr, hzero, hcc, hR⟩ := hloaded.of_numberedPcb hc
    refine ⟨hptbr, hzero, hd, by omega, fun line hline => ?_, hcc, hR⟩
    have hline := hfits line (by rw [hread]; exact hline)
    omega
  · rintro ⟨rfl, rfl, hd, hroom, hfits, hcc, hR⟩
    have htextRoom : text.length < file.block := file.room _ (by rw [hfile]; simp)
    have hcode := htext.loadHeader_eq_ok.2 ⟨htextRoom, by omega, rfl⟩
    have haddress : loadHeader (file.block - headerSkip text) data = _ :=
      hdata.loadHeader_eq_ok.2 ⟨by omega, hd, rfl⟩
    have hfits' : ∀ line ∈ readLines lines,
        line.length < file.block - headerSkip text - headerSkip data := by
      rw [hread]
      intro line hline
      have hline := hfits line hline
      omega
    have hpages : lines.length ≤ 64 * framesFor lines.length := by
      unfold framesFor
      omega
    obtain ⟨mmu', memory', hload, hflushed, -, hagree, hwords⟩ := loadFile_shows pcb hfile hcode
      haddress hfits' hmalloc htable (tlbSound_tlbFlush m _ _ _) hpages
    rw [hall] at hload hflushed hwords
    rw [if_pos hlength.symm, hflushed hlength.symm] at hload
    exact ⟨_, _, _, hload, .numberedPcb (htable.congr (htable.agree_table hagree)) (by omega)
      hwords hcc hR⟩

/-! ## A program of one instruction -/

/-- A call in the place of `mmu_malloc` that returns one of the two tables of `twoTables`. -/
def mallocTwoTables (x : Bool) : MmuMalloc := fun ps _ =>
  .ok (0, twoPgb x, { ps with memory := twoTables })

/-- The header line of code at word 0. -/
def exitText : List Char := ['.', 't', 'e', 'x', 't', ' ', '0', '\n']

/-- The header line of data at word 1. -/
def exitData : List Char := ['.', 'd', 'a', 't', 'a', ' ', '1', '\n']

/-- The data line of an `EXIT`. -/
def exitLine : List Char := ['F', '0', '0', '0', '0', '0', '0', '0', '\n']

theorem exitText_header : HeaderLine exitText 0 :=
  ⟨['.', 't', 'e', 'x', 't'], [], ['0'], ['\n'], rfl, by simp [lineEnds], by simp, by simp,
    by simp, by simp, rfl⟩

theorem exitData_header : HeaderLine exitData 1 :=
  ⟨['.', 'd', 'a', 't', 'a'], [], ['1'], ['\n'], rfl, by simp [lineEnds], by simp, by simp,
    by simp, by simp, rfl⟩

theorem exitLine_data : DataLine exitLine 0xF0000000 :=
  ⟨['F', '0', '0', '0', '0', '0', '0', '0'], ['\n'], rfl, rfl, by simp [hexCharToInt4], by decide⟩

/-- A PCB whose words are all 0 but `pid` and `current_priority`. -/
def zeroPcb : Pcb := ⟨1, 5, prUndefined, ⟨0, 0, 0⟩, ⟨0, 0, fun _ => 0, 0⟩⟩

/-- The first line is read into a block of 120 bytes. -/
theorem exitText_read : loadHeader 120 exitText = .ok (0, 114) :=
  exitText_header.loadHeader_eq_ok.2 ⟨by decide, by decide, rfl⟩

/-- The second one into what is left of it. -/
theorem exitData_read : loadHeader 114 exitData = .ok (4, 108) :=
  exitData_header.loadHeader_eq_ok.2 ⟨by decide, by decide, rfl⟩

/-- The program of one `EXIT`. -/
def exitFile : ProgramFile := ⟨[exitText, exitData, exitLine], 120, by decide⟩

/-- With the table at address 0 and a clear PCB the program is loaded. -/
theorem loadFile_loads_iff_zero : ∃ pcb' mmu' ps'',
    loadFile (mallocTwoTables false) (some exitFile) (tlbFlush 10) ⟨fun _ => 0, []⟩ zeroPcb =
      .ok (1, pcb', mmu', ps'') ∧
    Loaded 0 0 1 [0xF0000000] pcb' mmu' ps''.memory :=
  (loadFile_loads_iff rfl exitText_header exitData_header (.cons exitLine_data .nil)
    (show mallocTwoTables false _ _ = _ from rfl) (twoTables_pageTable false)).2
    ⟨rfl, rfl, by decide, by decide, by decide, rfl, fun _ _ => rfl⟩

/-- With the table at `0x100` the PCB is left with the table at 0, and the instruction goes to that
table's frame. -/
theorem loadFile_loses_table : HeaderLine exitText 0 ∧ HeaderLine exitData 1 ∧
    DataLine exitLine 0xF0000000 ∧ PageTable twoTables 0x100 (framesFor 1) ∧ ∃ pcb' mmu' ps'',
      loadFile (mallocTwoTables true) (some exitFile) (tlbFlush 10) ⟨fun _ => 0, []⟩ zeroPcb =
        .ok (1, pcb', mmu', ps'') ∧
      pcb'.memoryMap.pgb = 0 ∧ pmReadWord ps''.memory 0x400000 = 0xF0000000 ∧
      ¬ Loaded 0x100 0 1 [0xF0000000] pcb' mmu' ps''.memory := by
  have htable : PageTable twoTables 0 1 := twoTables_pageTable false
  have hmalloc : mallocTwoTables true ⟨fun _ => 0, []⟩ (BitVec.ofNat 32 [exitLine].length) =
    .ok (0, 0x100, ⟨twoTables, []⟩) := rfl
  obtain ⟨mmu', memory', hload, -, -, hagree, hwords⟩ := loadFile_shows zeroPcb
    (show exitFile.lines = _ from rfl) exitText_read exitData_read (by decide) hmalloc htable
    (tlbSound_tlbFlush 10 _ _ _) (by decide)
  have hall : lineWords [exitLine] = [0xF0000000] :=
    lineWords_of_dataLines (.cons exitLine_data .nil)
  rw [hall] at hload
  refine ⟨exitText_header, exitData_header, exitLine_data, twoTables_pageTable true, _, _, _, hload,
    rfl, ?_, fun hloaded => ?_⟩
  · have hword := congrArg (fun v => VirtualMachine.words v 0) (hwords zeroPcb.cpuSnapshot)
    simp only [view, hall] at hword
    have haddress : physicalAddress memory' 0 (virtualAddress (0 : Fin (64 * 1))) = 0x400000 := by
      have hpage := htable.pageNumber_virtualAddress 0
      rw [PageTable.physicalAddress_congr (htable.agree_table hagree) hpage]
      decide
    rw [haddress] at hword
    exact hword
  · have hpgb := congrArg MemoryMap.pgb hloaded.memoryMap
    revert hpgb
    decide

end SeKernel
