-- The range check of READ and WRITE, `verify_rw_param` of nvme_driver.c, for a
-- namespace of any size. The sum `slba + nlbs` has 64 bits and is compared with
-- `>`, and no test looks for a namespace id below 1.
import S4Sim.Firmware.Threads

namespace S4Sim

/-- `verify_rw_param` with the global `ssd_config.nsze`: whether it returns 0. -/
def verifyRwParam (nsze : Nat) (scmd : NvmeSCmd) : Bool :=
  if scmd.nsid.toNat > NUM_NS then false
  else if (scmd.slba + scmd.nlbs) % 2 ^ 64 > nsze then false
  else if MDTS_PAGES ≤ scmd.nlbs then false
  else true

/-- The check that the threads run is this one, at the size of new media. -/
theorem verify_rw_param_eq (c : Config) (scmd : NvmeSCmd) :
    verify_rw_param c scmd = verifyRwParam c.nsze scmd := rfl

variable {nsze : Nat} {scmd : NvmeSCmd}

theorem verifyRwParam_iff : verifyRwParam nsze scmd = true ↔
    scmd.nsid.toNat ≤ NUM_NS ∧ (scmd.slba + scmd.nlbs) % 2 ^ 64 ≤ nsze ∧
      scmd.nlbs < MDTS_PAGES := by
  unfold verifyRwParam
  split
  · simp only [Bool.false_eq_true, false_iff]
    omega
  · split
    · simp only [Bool.false_eq_true, false_iff]
      omega
    · split
      · simp only [Bool.false_eq_true, false_iff]
        omega
      · simp only [true_iff]
        omega

/-! ## What the check is for -/

/-- The command names a namespace that exists, has at most `MDTS_PAGES` blocks, and each of
them lies in the namespace. -/
def InNamespace (nsze : Nat) (scmd : NvmeSCmd) : Prop :=
  1 ≤ scmd.nsid.toNat ∧ scmd.nsid.toNat ≤ NUM_NS ∧ scmd.nlbs + 1 ≤ MDTS_PAGES ∧
    ∀ i ≤ scmd.nlbs, scmd.slba + i < nsze

/-- The 32-bit LPN that the FTL and the write back cache take for block `i`. -/
def NvmeSCmd.lpn (scmd : NvmeSCmd) (i : Nat) : Nat := (scmd.slba + i) % 2 ^ 32

/-- The check accepts what lies in the namespace and nothing else, and then the LPNs of the
command are below its size. -/
def ChecksRange (nsze : Nat) (scmd : NvmeSCmd) : Prop :=
  (verifyRwParam nsze scmd = true ↔ InNamespace nsze scmd) ∧
    (verifyRwParam nsze scmd = true → ∀ i ≤ scmd.nlbs, scmd.lpn i < nsze)

/-- A command of at most `MDTS_PAGES` blocks with namespace id 0 and a small enough sum, or
whose last block is just behind the namespace, or whose sum wraps at 2^64. -/
def EscapesCheck (nsze : Nat) (scmd : NvmeSCmd) : Prop :=
  scmd.nlbs < MDTS_PAGES ∧
    ((scmd.nsid.toNat = 0 ∧ (scmd.slba + scmd.nlbs) % 2 ^ 64 ≤ nsze) ∨
      (scmd.nsid.toNat = 1 ∧ (scmd.slba + scmd.nlbs = nsze ∨
        (2 ^ 64 ≤ scmd.slba + scmd.nlbs ∧ scmd.slba + scmd.nlbs ≤ nsze + 2 ^ 64))))

instance (nsze : Nat) (scmd : NvmeSCmd) : Decidable (EscapesCheck nsze scmd) := by
  unfold EscapesCheck
  infer_instance

theorem NvmeSCmd.slba_lt (scmd : NvmeSCmd) : scmd.slba < 2 ^ 64 := by
  have hlow := scmd.cdw10.toNat_lt
  have hhigh := scmd.cdw11.toNat_lt
  unfold NvmeSCmd.slba
  omega

theorem NvmeSCmd.nlbs_lt (scmd : NvmeSCmd) : scmd.nlbs < 2 ^ 16 := Nat.mod_lt _ (by decide)

theorem inNamespace_iff : InNamespace nsze scmd ↔
    scmd.nsid.toNat = 1 ∧ scmd.nlbs < MDTS_PAGES ∧ scmd.slba + scmd.nlbs < nsze := by
  unfold InNamespace NUM_NS
  constructor
  · rintro ⟨hpos, hle, hlen, hall⟩
    have := hall scmd.nlbs (Nat.le_refl _)
    omega
  · rintro ⟨hns, hlen, hlast⟩
    refine ⟨by omega, by omega, hlen, ?_⟩
    intro i hi
    omega

/-- The check is right exactly for the commands that do not escape it. -/
theorem the_range_is_checked_iff_nothing_escapes (nsze : UInt32) (scmd : NvmeSCmd) :
    ChecksRange nsze.toNat scmd ↔ ¬ EscapesCheck nsze.toNat scmd := by
  have hnsze := nsze.toNat_lt
  have hslba := scmd.slba_lt
  have hnlbs := scmd.nlbs_lt
  unfold ChecksRange EscapesCheck
  rw [verifyRwParam_iff, inNamespace_iff]
  unfold NUM_NS
  constructor
  · rintro ⟨hiff, -⟩ ⟨hlen, hslip⟩
    rcases hslip with ⟨hns, hsum⟩ | ⟨hns, hsum⟩
    · have := (hiff.mp ⟨by omega, hsum, hlen⟩).1
      omega
    · have := (hiff.mp ⟨by omega, by omega, hlen⟩).2.2
      omega
  · intro hslip
    have hiff : (scmd.nsid.toNat ≤ 1 ∧ (scmd.slba + scmd.nlbs) % 2 ^ 64 ≤ nsze.toNat ∧
        scmd.nlbs < MDTS_PAGES) ↔
        (scmd.nsid.toNat = 1 ∧ scmd.nlbs < MDTS_PAGES ∧ scmd.slba + scmd.nlbs < nsze.toNat) := by
      constructor
      · rintro ⟨hns, hsum, hlen⟩
        omega
      · rintro ⟨hns, hlen, hlast⟩
        omega
    refine ⟨hiff, ?_⟩
    intro haccept i hi
    have hlast := (hiff.mp haccept).2.2
    unfold NvmeSCmd.lpn
    omega

/-- A READ of the block just behind a namespace of 10 blocks. -/
def readBehindTheEnd : NvmeSCmd where
  opcode := 0x02
  cid := 0
  nsid := 1
  res1 := 0
  prp1 := 0x10000
  prp2 := 0
  cdw10 := 10
  cdw11 := 0
  cdw12 := 0

theorem the_block_behind_the_end_is_accepted :
    ¬ ∀ (nsze : UInt32) (scmd : NvmeSCmd), ChecksRange nsze.toNat scmd := by
  intro hall
  have hlpn := (hall 10 readBehindTheEnd).2 (by decide) 0 (Nat.zero_le _)
  exact absurd hlpn (by decide)

end S4Sim
