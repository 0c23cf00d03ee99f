-- nvme_fw_download of nvme_driver.c, which copies a piece of an applet image to
-- `external_code_buffer`. The end of the piece becomes the size of the code, so the piece that is
-- sent last decides it. The end of the buffer is not looked at.
import S4Sim.Lib.Run
import S4Sim.Nvme.PrpDescriptor
import S4Sim.Nvme.Admin
import S4Sim.Firmware.DmaOperations

open Runs Windows

namespace S4Sim

def PCI_DMA_READ : Nat := 0x10

/-- A firmware-download command with the host memory that it names, and what an earlier command
left in the descriptor of its request object. -/
structure FwDownload where
  num_dwords : UInt32
  dword_off : UInt32
  prp1 : UInt64
  prp2 : UInt64
  mem : Mem
  dma : HostDmaMeta

/-- The memory of the SSD, with addresses of 32 bits that count from `external_code_buffer`. -/
structure CodeBuffer where
  ram : Nat → UInt8
  external_code_size : Nat

namespace FwDownload

variable (cmd : FwDownload)

/-- `req->dma.data_size` -/
def data_size : Nat := (cmd.num_dwords.toNat + 1) * 4 % 2 ^ 32

/-- `ssd_addr`, from `external_code_buffer` on. -/
def ssd_addr : Nat := cmd.dword_off.toNat * 4 % 2 ^ 32

def decoded (hostPageBits : Nat) : Option (Dma × Bool) :=
  decode_prp hostPageBits cmd.mem cmd.prp1.toNat cmd.prp2.toNat
    { cmd.dma.toDma with data_size := cmd.data_size }

/-- The result of `decode_prp` is not looked at. `none`: it writes outside the descriptor. -/
def do_sync_dma (hostPageBits : Nat) : Option (List HostTransfer × HostDmaMeta) :=
  (cmd.decoded hostPageBits).map fun (dma, _) =>
    HostDmaMeta.do_sync_dma_operation
      { cmd.dma with toDma := dma, buffer_addr := cmd.ssd_addr, c_op_smem_pg := 0, c_op_len := 0 }
      PCI_DMA_READ

end FwDownload

/-- The memory after host bytes have moved to it. -/
def moveIn (mem : Mem) (ram : Nat → UInt8) (moves : List (Nat × Nat)) : Nat → UInt8 :=
  moves.foldl (fun ram move => Function.update ram move.2 (mem move.1)) ram

def CodeBuffer.nvme_fw_download (hostPageBits : Nat) (s : CodeBuffer) (cmd : FwDownload) :
    Option CodeBuffer :=
  (cmd.do_sync_dma hostPageBits).map fun (issued, dma) =>
    { ram := moveIn cmd.mem s.ram (issued.flatMap HostTransfer.moves)
      external_code_size := (cmd.ssd_addr + dma.data_size) % 2 ^ 32 }

/-! ## What the pieces should do -/

namespace FwDownload

variable (cmd : FwDownload)

/-- The range of the piece, in bytes. -/
def first : Nat := cmd.dword_off.toNat * 4

def size : Nat := (cmd.num_dwords.toNat + 1) * 4

def transfer : PrpTransfer := ⟨cmd.prp1.toNat, cmd.prp2.toNat, cmd.size⟩

/-- The command sends its part of the first `n` bytes of an image, from a buffer of the host that
its PRPs describe. -/
structure PieceOf (p : HostPage) (image : Nat → UInt8) (n : Nat) : Prop where
  inside : cmd.first + cmd.size ≤ n
  prp1 : cmd.transfer.prp1 ≠ 0
  pointers : (cmd.transfer.pointers p cmd.mem).Good p
  bytes : (hostBytes (cmd.transfer.segments p cmd.mem)).map cmd.mem =
    window image cmd.first cmd.size

/-- The download moves nothing outside `external_code_buffer`. -/
def StaysInside (hostPageBits : Nat) : Prop :=
  ∃ issued dma, cmd.do_sync_dma hostPageBits = some (issued, dma) ∧
    ∀ move ∈ issued.flatMap HostTransfer.moves, move.2 < ISP_MAX_APPLET_BIN_SIZE

/-- The bytes that the descriptor has for the download end in the buffer. -/
def EndsInside (hostPageBits : Nat) : Prop :=
  ∃ dma ok, cmd.decoded hostPageBits = some (dma, ok) ∧
    (min cmd.data_size (opsBytes dma.ops) = 0 ∨
      cmd.ssd_addr + min cmd.data_size (opsBytes dma.ops) ≤ ISP_MAX_APPLET_BIN_SIZE)

/-- The segments of the piece find room in the descriptor. -/
def HasRoom (p : HostPage) : Prop := (cmd.transfer.segments p cmd.mem).length ≤ MDTS_PAGES

end FwDownload

/-- The image is in the buffer, and its size is known. -/
def Downloaded (image : Nat → UInt8) (n : Nat) (s : CodeBuffer) : Prop :=
  (∀ i < n, s.ram i = image i) ∧ s.external_code_size = n

/-! ## The bytes that move -/

section

variable {mem : Mem} {ram : Nat → UInt8} {a i bits : Nat} {hosts : List Nat} {cmd : FwDownload}
  {issued : List HostTransfer} {dma : HostDmaMeta} {p : HostPage} {image : Nat → UInt8} {n : Nat}
  {s s' : CodeBuffer} {cmds : List FwDownload}

theorem movesFrom_snoc {host : Nat} : movesFrom a (hosts ++ [host]) =
    movesFrom a hosts ++ [(host, (a + hosts.length) % 2 ^ 32)] := by
  rw [movesFrom_append]
  simp [movesFrom]

theorem moveIn_snoc {moves : List (Nat × Nat)} {move : Nat × Nat} :
    moveIn mem ram (moves ++ [move]) =
      Function.update (moveIn mem ram moves) move.2 (mem move.1) := by
  simp [moveIn]

/-- Bytes that do not wrap leave what is beside them. -/
theorem moveIn_outside (h : a + hosts.length ≤ 2 ^ 32) (hi : i < a ∨ a + hosts.length ≤ i) :
    moveIn mem ram (movesFrom a hosts) i = ram i := by
  induction hosts using List.reverseRecOn with
  | nil => rfl
  | append_singleton hosts host ih =>
    rw [List.length_append, List.length_singleton] at h hi
    have hlast : (a + hosts.length) % 2 ^ 32 = a + hosts.length := Nat.mod_eq_of_lt (by omega)
    have hne : i ≠ a + hosts.length := by omega
    rw [movesFrom_snoc, hlast, moveIn_snoc, Function.update_of_ne hne]
    exact ih (by omega) (by omega)

/-- They are written side by side. -/
theorem window_moveIn (h : a + hosts.length ≤ 2 ^ 32) :
    window (moveIn mem ram (movesFrom a hosts)) a hosts.length = hosts.map mem := by
  induction hosts using List.reverseRecOn with
  | nil => rfl
  | append_singleton hosts host ih =>
    rw [List.length_append, List.length_singleton] at h
    have hlast : (a + hosts.length) % 2 ^ 32 = a + hosts.length := Nat.mod_eq_of_lt (by omega)
    have hbefore : window (Function.update (moveIn mem ram (movesFrom a hosts))
        (a + hosts.length) (mem host)) a hosts.length = hosts.map mem := by
      rw [← ih (by omega)]
      apply window_congr
      intro i _ hi
      exact Function.update_of_ne hi.ne ..
    rw [movesFrom_snoc, hlast, moveIn_snoc, List.length_append, List.length_singleton, window_add,
      hbefore, List.map_append]
    simp [window]

/-! ## One download -/

/-- What a download moves: the bytes of the decoded segments, up to the size. -/
theorem do_sync_dma_spec (h : cmd.do_sync_dma bits = some (issued, dma)) :
    ∃ decoded ok, cmd.decoded bits = some (decoded, ok) ∧
      issued.flatMap HostTransfer.moves =
        movesFrom cmd.ssd_addr ((hostBytes decoded.ops).take cmd.data_size) ∧
      dma.data_size = cmd.data_size := by
  obtain ⟨⟨decoded, ok⟩, hdec, he⟩ := Option.map_eq_some_iff.mp h
  have hsize : decoded.data_size = cmd.data_size := decode_prp_data_size hdec
  obtain ⟨rfl, rfl⟩ := Prod.mk.inj he
  refine ⟨decoded, ok, hdec, ?_, hsize⟩
  rw [syncTurns_moves]
  simp only [HostDmaMeta.requested, HostDmaMeta.segments, ne_eq, not_true, if_false,
    List.drop_zero, hsize]

/-- The addresses of a download stay in the buffer exactly when its end does. -/
theorem movesFrom_inside_iff (ha : a < 2 ^ 32) :
    (∀ move ∈ movesFrom a hosts, move.2 < ISP_MAX_APPLET_BIN_SIZE) ↔
      hosts.length = 0 ∨ a + hosts.length ≤ ISP_MAX_APPLET_BIN_SIZE := by
  have hmem : (∀ move ∈ movesFrom a hosts, move.2 < ISP_MAX_APPLET_BIN_SIZE) ↔
      ∀ k < hosts.length, (a + k) % 2 ^ 32 < ISP_MAX_APPLET_BIN_SIZE := by
    unfold movesFrom
    rw [List.forall_mem_iff_getElem]
    simp only [List.length_mapIdx, List.getElem_mapIdx]
  have hmax : ISP_MAX_APPLET_BIN_SIZE < 2 ^ 32 := by decide
  rw [hmem]
  constructor
  · intro hall
    by_contra hno
    rw [not_or, Nat.not_le] at hno
    rcases Nat.lt_or_ge a ISP_MAX_APPLET_BIN_SIZE with hlt | hge
    · -- The first byte behind the buffer.
      have := hall (ISP_MAX_APPLET_BIN_SIZE - a) (by omega)
      rw [Nat.add_sub_cancel' hlt.le, Nat.mod_eq_of_lt hmax] at this
      omega
    · have := hall 0 (by omega)
      rw [Nat.add_zero, Nat.mod_eq_of_lt ha] at this
      omega
  · rintro (hzero | hend) k hk
    · omega
    · rw [Nat.mod_eq_of_lt (by omega)]
      omega

theorem staysInside_iff : cmd.StaysInside bits ↔ cmd.EndsInside bits := by
  unfold FwDownload.StaysInside FwDownload.EndsInside
  have haddr : cmd.ssd_addr < 2 ^ 32 := Nat.mod_lt _ (by decide)
  have hlen (decoded : Dma) : ((hostBytes decoded.ops).take cmd.data_size).length =
      min cmd.data_size (opsBytes decoded.ops) := by
    rw [List.length_take, hostBytes_length]
  constructor
  · rintro ⟨issued, dma, hdma, hinside⟩
    obtain ⟨decoded, ok, hdec, hmoves, -⟩ := do_sync_dma_spec hdma
    rw [hmoves, movesFrom_inside_iff haddr, hlen] at hinside
    exact ⟨decoded, ok, hdec, hinside⟩
  · rintro ⟨decoded, ok, hdec, hend⟩
    obtain ⟨⟨issued, dma⟩, hdma⟩ : ∃ r, cmd.do_sync_dma bits = some r := by
      unfold FwDownload.do_sync_dma
      rw [hdec]
      exact ⟨_, rfl⟩
    obtain ⟨decoded', ok', hdec', hmoves, -⟩ := do_sync_dma_spec hdma
    obtain ⟨rfl, rfl⟩ := Prod.mk.inj (Option.some.inj (hdec'.symm.trans hdec))
    refine ⟨issued, dma, hdma, ?_⟩
    rw [hmoves, movesFrom_inside_iff haddr, hlen]
    exact hend

/-! ## One piece -/

theorem FwDownload.PieceOf.no_wrap (h : cmd.PieceOf p image n) (hn : n ≤ ISP_MAX_APPLET_BIN_SIZE) :
    cmd.data_size = cmd.size ∧ cmd.ssd_addr = cmd.first := by
  have hmax : ISP_MAX_APPLET_BIN_SIZE < 2 ^ 32 := by decide
  have hinside := h.inside
  exact ⟨Nat.mod_eq_of_lt (show cmd.size < 2 ^ 32 by omega),
    Nat.mod_eq_of_lt (show cmd.first < 2 ^ 32 by omega)⟩

/-- A piece with room in the descriptor is copied to its place. Else `decode_prp` writes outside
the descriptor. -/
theorem download_piece (h : cmd.PieceOf p image n) (hn : n ≤ ISP_MAX_APPLET_BIN_SIZE) :
    (cmd.HasRoom p → ∃ s', s.nvme_fw_download p.hostPageBits cmd = some s' ∧
      (∀ i, cmd.first ≤ i → i < cmd.first + cmd.size → s'.ram i = image i) ∧
      (∀ i, i < cmd.first ∨ cmd.first + cmd.size ≤ i → s'.ram i = s.ram i) ∧
      s'.external_code_size = cmd.first + cmd.size) ∧
    (¬ cmd.HasRoom p → s.nvme_fw_download p.hostPageBits cmd = none) := by
  obtain ⟨hsize, haddr⟩ := h.no_wrap hn
  have hmax : ISP_MAX_APPLET_BIN_SIZE < 2 ^ 32 := by decide
  have hinside := h.inside
  obtain ⟨hfits, hfull⟩ := PrpWalk.dma_of_good { cmd.dma.toDma with data_size := cmd.data_size }
    h.prp1 hsize h.pointers
  constructor
  · intro hroom
    obtain ⟨decoded, hdec, hops⟩ := hfits hroom
    have hdec : cmd.decoded p.hostPageBits = some (decoded, true) := hdec
    obtain ⟨⟨issued, dma⟩, hdma⟩ : ∃ r, cmd.do_sync_dma p.hostPageBits = some r := by
      unfold FwDownload.do_sync_dma
      rw [hdec]
      exact ⟨_, rfl⟩
    obtain ⟨decoded', ok', hdec', hmoves, hdata⟩ := do_sync_dma_spec hdma
    obtain ⟨rfl, rfl⟩ := Prod.mk.inj (Option.some.inj (hdec'.symm.trans hdec))
    have hlen : (hostBytes (cmd.transfer.segments p cmd.mem)).length = cmd.size := by
      rw [hostBytes_length]
      exact PrpTransfer.opsBytes_segments
    rw [hops, hsize, haddr, List.take_of_length_le hlen.le] at hmoves
    have hfit : cmd.first + (hostBytes (cmd.transfer.segments p cmd.mem)).length ≤ 2 ^ 32 := by
      omega
    refine ⟨_, congrArg (Option.map _) hdma, ?_, ?_, ?_⟩
    · intro i hi hlt
      simp only [hmoves]
      have hwindow : window (moveIn cmd.mem s.ram
          (movesFrom cmd.first (hostBytes (cmd.transfer.segments p cmd.mem)))) cmd.first
          (hostBytes (cmd.transfer.segments p cmd.mem)).length =
            (hostBytes (cmd.transfer.segments p cmd.mem)).map cmd.mem := window_moveIn hfit
      rw [hlen, h.bytes] at hwindow
      exact cell_of_window_eq hwindow hi hlt
    · intro i hi
      simp only [hmoves]
      exact moveIn_outside hfit (by rwa [hlen])
    · simp only [hdata, hsize, haddr]
      exact Nat.mod_eq_of_lt (by omega)
  · intro hroom
    have hdec : cmd.decoded p.hostPageBits = none := hfull (Nat.lt_of_not_le hroom)
    unfold CodeBuffer.nvme_fw_download FwDownload.do_sync_dma
    rw [hdec]
    rfl

/-! ## All pieces -/

/-- The pieces are copied in any order, and the last one sets the size. -/
theorem run_downloads (hn : n ≤ ISP_MAX_APPLET_BIN_SIZE)
    (hpieces : ∀ cmd ∈ cmds, cmd.PieceOf p image n) (hroom : ∀ cmd ∈ cmds, cmd.HasRoom p) :
    ∃ s', run (CodeBuffer.nvme_fw_download p.hostPageBits) s cmds = some s' ∧
      (∀ cmd ∈ cmds, ∀ i, cmd.first ≤ i → i < cmd.first + cmd.size → s'.ram i = image i) ∧
      ∀ cmd, cmds.getLast? = some cmd → s'.external_code_size = cmd.first + cmd.size := by
  induction cmds using List.reverseRecOn with
  | nil => exact ⟨s, rfl, fun _ hcmd => absurd hcmd List.not_mem_nil, fun _ hcmd => by cases hcmd⟩
  | append_singleton cmds last ih =>
    obtain ⟨s1, hrun, hram, -⟩ := ih (fun cmd hcmd => hpieces cmd (List.mem_append_left _ hcmd))
      fun cmd hcmd => hroom cmd (List.mem_append_left _ hcmd)
    have hin : last ∈ cmds ++ [last] := List.mem_append_right _ (List.mem_singleton_self last)
    obtain ⟨s', hs', hnew, hold, hsize⟩ :=
      (download_piece (s := s1) (hpieces last hin) hn).1 (hroom last hin)
    refine ⟨s', run_snoc_eq_some.mpr ⟨s1, hrun, hs'⟩, fun cmd hcmd i hi hlt => ?_, ?_⟩
    · -- A byte of an earlier piece that the last one also has is the same there.
      by_cases hlast : last.first ≤ i ∧ i < last.first + last.size
      · exact hnew i hlast.1 hlast.2
      · rcases List.mem_append.mp hcmd with hmem | hmem
        · rw [hold i (by omega)]
          exact hram cmd hmem i hi hlt
        · rw [List.mem_singleton.mp hmem] at hi hlt
          exact absurd ⟨hi, hlt⟩ hlast
    · intro cmd hcmd
      rw [List.getLast?_concat] at hcmd
      rw [← Option.some.inj hcmd]
      exact hsize

/-- A piece without room ends the run. -/
theorem run_no_room (hn : n ≤ ISP_MAX_APPLET_BIN_SIZE)
    (hpieces : ∀ cmd ∈ cmds, cmd.PieceOf p image n)
    (h : run (CodeBuffer.nvme_fw_download p.hostPageBits) s cmds = some s') :
    ∀ cmd ∈ cmds, cmd.HasRoom p := by
  induction cmds generalizing s with
  | nil => exact fun _ hcmd => absurd hcmd List.not_mem_nil
  | cons first cmds ih =>
    obtain ⟨hfirst, hrest⟩ := List.forall_mem_cons.mp hpieces
    obtain ⟨t, ht, hrun⟩ := Option.bind_eq_some_iff.mp h
    refine List.forall_mem_cons.mpr ⟨?_, ih hrest hrun⟩
    by_contra hroom
    rw [(download_piece hfirst hn).2 hroom] at ht
    cases ht

end

/-- The pieces of an image, in any order, give the image and its size exactly when they find room
in the descriptor and the last one ends the image. A download, of any size and offset, stays in
the buffer exactly when its bytes end there. -/
theorem downloads_iff (p : HostPage) :
    (∀ (image : Nat → UInt8) (n : Nat) (cmds : List FwDownload) (s : CodeBuffer),
      n ≤ ISP_MAX_APPLET_BIN_SIZE → cmds ≠ [] → (∀ cmd ∈ cmds, cmd.PieceOf p image n) →
      (∀ i < n, ∃ cmd ∈ cmds, cmd.first ≤ i ∧ i < cmd.first + cmd.size) →
      ((∃ s', run (CodeBuffer.nvme_fw_download p.hostPageBits) s cmds = some s' ∧
          Downloaded image n s') ↔
        (∀ cmd ∈ cmds, cmd.HasRoom p) ∧
          ∃ cmd, cmds.getLast? = some cmd ∧ cmd.first + cmd.size = n)) ∧
    ∀ cmd : FwDownload, cmd.StaysInside p.hostPageBits ↔ cmd.EndsInside p.hostPageBits := by
  refine ⟨fun image n cmds s hn hne hpieces hcover => ?_, fun cmd => staysInside_iff⟩
  constructor
  · rintro ⟨s', hrun, -, hend⟩
    have hroom := run_no_room hn hpieces hrun
    obtain ⟨s'', hrun', -, hsize⟩ := run_downloads (s := s) hn hpieces hroom
    obtain rfl := Option.some.inj (hrun.symm.trans hrun')
    have hlast := List.getLast?_eq_getLast_of_ne_nil hne
    exact ⟨hroom, _, hlast, (hsize _ hlast).symm.trans hend⟩
  · rintro ⟨hroom, cmd, hlast, hend⟩
    obtain ⟨s', hrun, hram, hsize⟩ := run_downloads (s := s) hn hpieces hroom
    refine ⟨s', hrun, fun i hi => ?_, (hsize cmd hlast).trans hend⟩
    obtain ⟨piece, hpiece, hfirst, hlt⟩ := hcover i hi
    exact hram piece hpiece i hfirst hlt

/-- A piece of 8 bytes of an image of zeros, in a page of the host. -/
def zeroPiece (dword_off : UInt32) : FwDownload :=
  ⟨1, dword_off, 4096, 0, fun _ => 0, ⟨⟨0, 0, fun _ => ⟨0, 0⟩⟩, false, 0, 0, 0⟩⟩

theorem zeroPiece_pieceOf {dword_off : UInt32} (h : dword_off.toNat * 4 + 8 ≤ 16) :
    (zeroPiece dword_off).PieceOf PrpWalk.page4096 (fun _ => 0) 16 := by
  have htransfer : (zeroPiece dword_off).transfer = ⟨4096, 0, 8⟩ := rfl
  refine ⟨h, ?_, ?_, ?_⟩
  · rw [htransfer]
    decide
  · rw [htransfer]
    unfold PrpTransfer.pointers PrpTransfer.pointersFrom
    rw [if_pos (by decide)]
    exact ⟨fun _ ha => absurd ha List.not_mem_nil, fun _ ha => absurd ha List.not_mem_nil⟩
  · have hlen : (hostBytes ((zeroPiece dword_off).transfer.segments PrpWalk.page4096
        (zeroPiece dword_off).mem)).length = 8 := by
      rw [hostBytes_length]
      exact PrpTransfer.opsBytes_segments
    show List.map (fun _ => 0) _ = List.map (fun _ => 0) _
    rw [List.map_const', List.map_const', hlen, List.length_range]
    rfl

/-- The second half of an image is sent before the first one, and a piece is sent to the end of
the buffer. -/
theorem downloads_in_another_order :
    (∀ cmd ∈ [zeroPiece 2, zeroPiece 0], cmd.PieceOf PrpWalk.page4096 (fun _ => 0) 16) ∧
      (∀ i < 16, ∃ cmd ∈ [zeroPiece 2, zeroPiece 0],
        cmd.first ≤ i ∧ i < cmd.first + cmd.size) ∧
      (zeroPiece 0).first + (zeroPiece 0).size ≤ (zeroPiece 2).first ∧
      (¬ ∃ s', run (CodeBuffer.nvme_fw_download 12) ⟨fun _ => 0, 0⟩ [zeroPiece 2, zeroPiece 0] =
        some s' ∧ Downloaded (fun _ => 0) 16 s') ∧
      ¬ (zeroPiece 0x4000000).StaysInside 12 := by
  refine ⟨?_, by decide, by decide, ?_, ?_⟩
  · simp only [List.forall_mem_cons, List.not_mem_nil, false_implies, implies_true, and_true]
    exact ⟨zeroPiece_pieceOf (by decide), zeroPiece_pieceOf (by decide)⟩
  · rintro ⟨s', hrun, -, hsize⟩
    have hend := congrArg (Option.map CodeBuffer.external_code_size) hrun
    rw [Option.map_some, hsize] at hend
    revert hend
    decide
  · rw [staysInside_iff]
    rintro ⟨dma, ok, hdec, hend⟩
    have hbytes : ((zeroPiece 0x4000000).decoded 12).map (fun r => opsBytes r.1.ops) = some 8 := by
      decide
    rw [hdec, Option.map_some, Option.some.injEq] at hbytes
    rw [hbytes] at hend
    revert hend
    decide

end S4Sim
