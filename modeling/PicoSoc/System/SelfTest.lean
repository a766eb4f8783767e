import PicoSoc.System.CofbTest
import PicoSoc.System.JambuTest
import PicoSoc.System.XoodyakTest

set_option autoImplicit false

/-! # The self-test of the firmware (`main`)

The tests of the three accelerators follow each other on one system; each leaves the accelerators of
the others at rest. The SD card test, which comes after them, is left out. -/

namespace PicoSoc.Firmware

open Bytes Clocked Mmio PicoSoc.System

/-- `main` up to `test_sdcard`; `junk` is what the array `ct0` of `test_giftcofb` holds at first. -/
def mainCrypto (junk : Words4) : Prog (Bool × Bool × Option Bool) := do
  store outbyte 0x01
  ps "\n\n"
  ps "# ======================================\n"
  ps "# PicoRV32 Crypto SoC + SD SPI\n"
  ps "# Core 1: TinyJAMBU  @ 0x3000_0000\n"
  ps "# Core 2: Xoodyak    @ 0x4000_0000\n"
  ps "# Core 3: GIFT-COFB  @ 0x5000_0000\n"
  ps "# SD SPI:            @ 0x6000_0000\n"
  ps "# Arty A7-100T  |  100 MHz\n"
  ps "# ======================================\n\n"
  let jbPass ← testTinyjambu
  ps "\n"
  let xdPass ← testXoodyak
  ps "\n"
  let gcPass ← testGiftcofb junk
  ps "\n"
  return (jbPass, xdPass, gcPass)

/-! ## Accelerators beside each other -/

/-- An accelerator at rest, with any registers and results. -/
def SomeRest {ρ ι σ α : Type} (a : Slot ρ ι σ α) (s : Soc) : Prop := ∃ r o k, a.Resting r o k s

theorem frame_someRest {ρ ι σ α : Type} {a : Slot ρ ι σ α} (ha : a.Lawful) {boot : Ram bootSize}
    {L : Word → Prop} (hL : ∀ addr, L addr → a.writes.lookup addr = none) :
    Frame boot L (SomeRest a) :=
  .exists fun _ => .exists fun _ => .exists fun _ => ha.frame hL

/-- All registers are in one page of 256 MiB. -/
def InPage {ρ ι σ α : Type} (a : Slot ρ ι σ α) (m : ℕ) : Prop :=
  ∀ e ∈ a.writes, e.1.toNat / 0x10000000 = m

theorem jambuSlot_page : InPage jambuSlot 3 := by
  unfold InPage
  decide

theorem xoodyakSlot_page : InPage xoodyakSlot 4 := by
  unfold InPage
  decide

theorem cofbSlot_page : InPage cofbSlot 5 := by
  unfold InPage
  decide

/-- A test writes no register of the other accelerators. -/
theorem labels_none {ρ ι σ α ρ' ι' σ' α' : Type} {a : Slot ρ ι σ α} {b : Slot ρ' ι' σ' α'}
    (ha : a.Lawful) {m n : ℕ} (hm : InPage a m) (hn : InPage b n) (hne : m ≠ n) (addr : Word)
    (h : Labels b addr) : a.writes.lookup addr = none := by
  rcases h with hconsole | ⟨f, hf⟩
  · exact console_none ha hconsole
  · obtain ⟨l₁, l₂, hl, -⟩ := List.lookup_eq_some_iff.1 hf
    have hpage : addr.toNat / 0x10000000 = n := hn (addr, f) (by rw [hl]; simp)
    refine lookup_eq_none_iff.2 fun hmem => hne ?_
    obtain ⟨e, he, haddr⟩ := List.mem_map.1 hmem
    rw [← hm e he, haddr, hpage]

/-- The three accelerators are at rest. -/
def AllRest (s : Soc) : Prop :=
  SomeRest jambuSlot s ∧ SomeRest xoodyakSlot s ∧ SomeRest cofbSlot s

theorem frame_allRest {boot : Ram bootSize} : Frame boot Console AllRest :=
  (frame_someRest jambuSlot_lawful fun _ => console_none jambuSlot_lawful).and
    ((frame_someRest xoodyakSlot_lawful fun _ => console_none xoodyakSlot_lawful).and
      (frame_someRest cofbSlot_lawful fun _ => console_none cofbSlot_lawful))

/-- Reset brings them there. -/
theorem allRest_reset (boot : Ram bootSize) (i : SocIn) (s : Soc) : AllRest (s.reset boot i) :=
  ⟨⟨.reset, _, ⟨false, false⟩, rfl, rfl, rfl, rfl, rfl, rfl⟩,
    ⟨.reset, _, ⟨false, false⟩, rfl, rfl, ⟨rfl, .init rfl⟩, rfl, rfl, rfl⟩,
    ⟨.reset, _, ⟨false, false⟩, rfl, rfl, ⟨rfl, .init ⟨_, rfl⟩⟩, rfl, rfl, rfl⟩⟩

/-! ## The tests one after the other -/

section

variable {boot : Ram bootSize}

theorem testTinyjambu_allRest :
    Ends (socTarget boot) AllRest testTinyjambu fun ok s => ok = true ∧ AllRest s := by
  have hframe : Frame boot (Labels jambuSlot) fun s =>
      SomeRest xoodyakSlot s ∧ SomeRest cofbSlot s :=
    (frame_someRest xoodyakSlot_lawful
      (labels_none xoodyakSlot_lawful xoodyakSlot_page jambuSlot_page (by decide))).and
      (frame_someRest cofbSlot_lawful
        (labels_none cofbSlot_lawful cofbSlot_page jambuSlot_page (by decide)))
  refine (testTinyjambu_ends hframe).mono (fun s ⟨⟨r, o, k, hs⟩, hx⟩ => ⟨r, o, k, hs, hx⟩) ?_
  rintro ok s ⟨hok, r, o, k, hs, hx⟩
  exact ⟨hok, ⟨r, o, k, hs⟩, hx⟩

theorem testXoodyak_allRest :
    Ends (socTarget boot) AllRest testXoodyak fun ok s => ok = true ∧ AllRest s := by
  have hframe : Frame boot (Labels xoodyakSlot) fun s =>
      SomeRest jambuSlot s ∧ SomeRest cofbSlot s :=
    (frame_someRest jambuSlot_lawful
      (labels_none jambuSlot_lawful jambuSlot_page xoodyakSlot_page (by decide))).and
      (frame_someRest cofbSlot_lawful
        (labels_none cofbSlot_lawful cofbSlot_page xoodyakSlot_page (by decide)))
  refine (testXoodyak_ends hframe).mono
    (fun s ⟨hj, ⟨r, o, k, hs⟩, hc⟩ => ⟨r, o, k, hs, hj, hc⟩) ?_
  rintro ok s ⟨hok, r, o, k, hs, hj, hc⟩
  exact ⟨hok, hj, ⟨r, o, k, hs⟩, hc⟩

theorem testGiftcofb_allRest (junk : Words4) :
    Ends (socTarget boot) AllRest (testGiftcofb junk) fun ok s => ok = some true ∧ AllRest s := by
  have hframe : Frame boot (Labels cofbSlot) fun s =>
      SomeRest jambuSlot s ∧ SomeRest xoodyakSlot s :=
    (frame_someRest jambuSlot_lawful
      (labels_none jambuSlot_lawful jambuSlot_page cofbSlot_page (by decide))).and
      (frame_someRest xoodyakSlot_lawful
        (labels_none xoodyakSlot_lawful xoodyakSlot_page cofbSlot_page (by decide)))
  refine (testGiftcofb_ends hframe junk).mono
    (fun s ⟨hj, hx, r, o, k, hs⟩ => ⟨r, o, k, hs, hj, hx⟩) ?_
  rintro ok s ⟨hok, r, o, k, hs, hj, hx⟩
  exact ⟨hok, hj, hx, r, o, k, hs⟩

end

/-- From reset, whatever the registers and the memories held before and whenever the processor gets
    to its accesses, `main` comes to `test_sdcard` with the three tests passed. -/
theorem self_test_passes (boot : Ram bootSize) (i : SocIn) (s : Soc) (junk : Words4)
    (env : ℕ → Mmio.Cycle HostIn) (hfair : Fair env) :
    Returns (socTarget boot) env ⟨.ready (mainCrypto junk), s.reset boot i⟩ fun passed s' =>
      passed = (true, true, some true) ∧ AllRest s' := by
  have hprint : Frame boot Console AllRest := frame_allRest
  suffices h : Ends (socTarget boot) AllRest (mainCrypto junk) fun passed s' =>
      passed = (true, true, some true) ∧ AllRest s' from
    h env hfair _ (allRest_reset boot i s)
  refine ends_then (ends_led hprint _) ?_
  refine ends_then (ends_ps hprint _) <| ends_then (ends_ps hprint _) ?_
  refine ends_then (ends_ps hprint _) <| ends_then (ends_ps hprint _) ?_
  refine ends_then (ends_ps hprint _) <| ends_then (ends_ps hprint _) ?_
  refine ends_then (ends_ps hprint _) <| ends_then (ends_ps hprint _) ?_
  refine ends_then (ends_ps hprint _) ?_
  refine ends_pass testTinyjambu_allRest ?_
  refine ends_then (ends_ps hprint _) ?_
  refine ends_pass testXoodyak_allRest ?_
  refine ends_then (ends_ps hprint _) ?_
  refine (testGiftcofb_allRest junk).bind fun ok => ?_
  intro env hfair s ⟨hok, hs⟩
  rw [hok]
  refine ends_then (ends_ps hprint _) ?_ env hfair s hs
  exact Ends.ret fun s hs => ⟨rfl, hs⟩

theorem self_test_passes_prompt : Returns (socTarget emptyBoot) promptEnv
    ⟨.ready (mainCrypto ⟨0, 0, 0, 0⟩), sampleSoc.reset emptyBoot noAccess⟩ fun passed s' =>
      passed = (true, true, some true) ∧ AllRest s' :=
  self_test_passes emptyBoot noAccess sampleSoc ⟨0, 0, 0, 0⟩ promptEnv promptEnv_fair

end PicoSoc.Firmware
