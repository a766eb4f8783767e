import PicoSoc.Boot.LoadFw

set_option autoImplicit false

/-! # The image packer (`wrap_firmware.py`)

`wrap` from the raw binary that `objcopy` leaves, and the images on which it and `load_fw` agree. -/

namespace PicoSoc.Boot

open Bytes

/-! ## The packer -/

/-- What `wrap` leaves behind: the warning on `stderr` and the output file. -/
structure Wrapped where
  warned : Bool
  file : List Byte

/-- `while len(fw_data) % 4` -/
def padTo4 (data : List Byte) : List Byte :=
  if data.length % 4 ≠ 0 then padTo4 (data ++ [0]) else data
termination_by (4 - data.length % 4) % 4
decreasing_by
  rw [List.length_append, List.length_singleton]
  omega

/-- `struct.pack("<I", n)`, an error where `n` does not fit. -/
def packLE32 (n : ℕ) : Option (List Byte) :=
  if n < 2 ^ 32 then some ((List.range 4).map (byteLE (BitVec.ofNat 32 n))) else none

def budget : ℕ := 63 * 1024

def wrap (fwData : List Byte) : Option Wrapped :=
  (packLE32 fwData.length).map fun header =>
    { warned := budget < fwData.length, file := header ++ padTo4 fwData }

theorem padTo4_eq (data : List Byte) :
    padTo4 data = data ++ List.replicate ((4 - data.length % 4) % 4) 0 := by
  induction data using padTo4.induct with
  | case1 data h ih =>
      have hcount : (4 - data.length % 4) % 4 = (4 - (data ++ [0]).length % 4) % 4 + 1 := by
        rw [List.length_append, List.length_singleton]
        omega
      rw [padTo4, if_pos h, ih, hcount, List.replicate_succ, List.append_assoc]
      rfl
  | case2 data h =>
      have hzero : (4 - data.length % 4) % 4 = 0 := by omega
      rw [padTo4, if_neg h, hzero, List.replicate_zero, List.append_nil]

/-! ## The file on the card -/

variable {image : List Byte} {out : Wrapped} {sd : Sd}

/-- The card holds the file from sector 2048 on; what follows it is arbitrary. -/
def Placed (sd : Sd) (file : List Byte) : Prop :=
  ∀ k (h : k < file.length), cardByte sd k = file[k]

theorem wrap_eq_some (h : wrap image = some out) :
    image.length < 2 ^ 32 ∧ out.warned = decide (budget < image.length)
      ∧ out.file = (List.range 4).map (byteLE (BitVec.ofNat 32 image.length)) ++ padTo4 image := by
  unfold wrap packLE32 at h
  split at h
  · next hlen =>
      simp only [Option.map_some, Option.some.injEq] at h
      subst h
      exact ⟨hlen, rfl, rfl⟩
  · simp at h

theorem cardByte_header (h : wrap image = some out) (hp : Placed sd out.file) {k : ℕ} (hk : k < 4) :
    cardByte sd k = byteLE (BitVec.ofNat 32 image.length) k := by
  obtain ⟨-, -, hfile⟩ := wrap_eq_some h
  have hlen : k < out.file.length := by
    rw [hfile, List.length_append, List.length_map, List.length_range]
    omega
  rw [hp k hlen]
  simp only [hfile]
  rw [List.getElem_append_left (by simpa using hk), List.getElem_map, List.getElem_range]

theorem cardByte_image (h : wrap image = some out) (hp : Placed sd out.file) {k : ℕ}
    (hk : k < image.length) : cardByte sd (4 + k) = image[k] := by
  obtain ⟨-, -, hfile⟩ := wrap_eq_some h
  rw [padTo4_eq image] at hfile
  have hlen : 4 + k < out.file.length := by
    rw [hfile, List.length_append, List.length_append, List.length_map, List.length_range]
    omega
  rw [hp (4 + k) hlen]
  simp only [hfile]
  rw [List.getElem_append_right (by simp), List.getElem_append_left (by simpa using hk)]
  simp

/-- The header says the length of the image. -/
theorem imageSize_of_wrap (h : wrap image = some out) (hp : Placed sd out.file) :
    imageSize sd = image.length := by
  have hbytes : ofBytesLE 4 (cardByte sd) = BitVec.ofNat 32 image.length := by
    apply eq_of_byteLE 4 rfl
    intro k hk
    rw [byteLE_ofBytesLE _ hk, cardByte_header h hp hk]
  rw [imageSize, hbytes, BitVec.toNat_ofNat, Nat.mod_eq_of_lt (wrap_eq_some h).1]

/-- A card with the file on it. -/
def cardOf (file : List Byte) : Sd where
  initStatus := 0
  readStatus := fun _ => 0
  content := fun sector k => file.getD ((sector - appStartSector).toNat * 512 + k) 0

theorem placed_cardOf {file : List Byte} (hlen : file.length < 2 ^ 32) : Placed (cardOf file) file := by
  intro k hk
  have hsector : (appStartSector + BitVec.ofNat 32 (k / 512) - appStartSector).toNat = k / 512 :=
    toNat_add_sub_self _ (by omega)
  show file.getD ((appStartSector + BitVec.ofNat 32 (k / 512) - appStartSector).toNat * 512
    + k % 512) 0 = file[k]
  rw [hsector, show k / 512 * 512 + k % 512 = k by omega, List.getD_eq_getElem _ _ hk]

/-! ## Packer and bootloader -/

/-- What `wrap` writes without a warning, `load_fw` loads: exactly the image, at `0x10000`. -/
def Agrees (image : List Byte) : Prop :=
  ∀ out, wrap image = some out → out.warned = false →
    ∀ (L : Layout) (sd : Sd) (m : Machine), Placed sd out.file → (∀ i, sd.readStatus i = 0) →
      (loadFw L sd m).1 = 0
        ∧ (∀ k (h : k < image.length),
            (loadFw L sd m).2.mem.byte (appBase + BitVec.ofNat 32 k) = image[k])
        ∧ Stores (fun a => InRegion L.sbuf 512 a ∨ InRegion appBase image.length a) m.mem
            (loadFw L sd m).2.mem

theorem agrees_of_sizeOk (hsize : SizeOk image.length) : Agrees image := by
  intro out hwrap _ L sd m hplaced hreads
  obtain ⟨hreturn, hloaded, hstores⟩ := @loadFw_spec L sd m
  rw [imageSize_of_wrap hwrap hplaced] at hreturn hloaded hstores
  have hzero : (loadFw L sd m).1 = 0 := hreturn.2 ⟨hsize, fun i _ => hreads _⟩
  refine ⟨hzero, fun k hk => ?_, hstores.mono ?_⟩
  · rw [hloaded hzero k hk, cardByte_image hwrap hplaced hk]
  · rintro a (ha | ⟨-, ha⟩)
    · exact .inl ha
    · exact .inr ha

theorem agrees_of_over_budget (hlen : budget < image.length) : Agrees image := by
  intro out hwrap hwarned
  rw [(wrap_eq_some hwrap).2.1] at hwarned
  simp [hlen] at hwarned

/-- Inside the budget of the packer, an image that `load_fw` rejects breaks the agreement. -/
theorem not_agrees (hlen : image.length ≤ budget) (hsize : ¬SizeOk image.length) : ¬Agrees image := by
  intro hagrees
  have hbudget : budget = 64512 := rfl
  have hwrap : wrap image = some
      ⟨decide (budget < image.length),
        (List.range 4).map (byteLE (BitVec.ofNat 32 image.length)) ++ padTo4 image⟩ := by
    rw [wrap, packLE32, if_pos (by omega)]
    rfl
  have hpad : (padTo4 image).length < 2 ^ 32 - 4 := by
    rw [padTo4_eq, List.length_append, List.length_replicate]
    omega
  have hplaced := @placed_cardOf ((List.range 4).map
    (byteLE (BitVec.ofNat 32 image.length)) ++ padTo4 image) (by simp; omega)
  let L : Layout := ⟨0x1F000, by decide, by decide⟩
  let m : Machine := ⟨⟨fun _ => 0, []⟩, 0, []⟩
  obtain ⟨hzero, -⟩ := hagrees _ hwrap (by simp [hlen]) L _ m hplaced (fun _ => rfl)
  have hreturn := (@loadFw_spec L (cardOf _) m).1.1 hzero
  rw [imageSize_of_wrap hwrap hplaced] at hreturn
  exact hsize hreturn.1

/-- The two agree on an image exactly when `load_fw` accepts its length or the packer warns. -/
theorem wrap_agrees_iff (image : List Byte) :
    Agrees image ↔
      (1 ≤ image.length ∧ image.length ≤ 60 * 1024) ∨ 63 * 1024 < image.length := by
  constructor
  · intro h
    by_contra hlen
    exact not_agrees (by simp only [budget]; omega) (by simp only [SizeOk]; omega) h
  · rintro (h | h)
    · exact agrees_of_sizeOk ⟨h.1, by omega⟩
    · exact agrees_of_over_budget h

/-- An image one byte longer than `load_fw` takes. -/
theorem not_agrees_61441 : ¬Agrees (List.replicate 61441 0xA5) :=
  not_agrees (by rw [List.length_replicate]; decide) (by rw [List.length_replicate, SizeOk]; decide)

end PicoSoc.Boot
