import Ridux.Lib.Words
import Ridux.Text

/-!
# Disks

* `Disk`: what a device has in its sectors, where they can be read;
* `ataReadSector`: a sector by the number that is asked for.
-/

namespace Ridux

/-- The bytes of a sector. -/
def sectorSize : ℕ := 512

/-- A sector, with all its bytes. -/
abbrev Sector := { b : Bytes // b.length = sectorSize }

/-- The sectors of a device, by their number; there is none where it cannot be read. -/
abbrev Disk := ℕ → Option Sector

/-- A block device, if there is one with the number that is asked for. -/
abbrev Device := Option Disk

/-- The sectors that 28 bits can name. -/
def lbaLimit : ℕ := 2 ^ 28

/-- `ata_read_sectors`, for one sector: the device gets 28 bits of the number. -/
def ataReadSector (disk : Disk) (lba : ℕ) : Option Sector := disk (lba % lbaLimit)

theorem ataReadSector_of_lt {disk : Disk} {lba : ℕ} (h : lba < lbaLimit) : ataReadSector disk lba = disk lba := by
  rw [ataReadSector, Nat.mod_eq_of_lt h]

/-- A sector of zeros, with some bytes written from `off` on. -/
def Sector.patch (off : ℕ) (bs : Bytes) (h : off + bs.length ≤ sectorSize) : Sector :=
  ⟨List.replicate off 0 ++ bs ++ List.replicate (sectorSize - (off + bs.length)) 0, by simp; omega⟩

end Ridux
