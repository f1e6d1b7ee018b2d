import Zenbite.Lib.Runs
import Zenbite.Fat.Atomic
import Zenbite.Fat.File
import Zenbite.Fat.Format

/-! The calls of the file system as one step function. -/

namespace Zenbite.Fat

open Memory VolState

inductive FsCall where
  | mount (letter : UInt8) (id : Nat)
  | unmount (letter : UInt8)
  | setDrive (letter : UInt8)
  | format (id hidden : Nat) (label : Option (List UInt8))
  | chdir (path : List UInt8)
  | opens (path : List UInt8)
  | close (h : Nat)
  | read (h n : Nat)
  | write (h : Nat) (data : List UInt8)
  | tree (call : MetaCall)
  | opendir (path : List UInt8)
  | readdir (h : Nat)
  | closedir (h : Nat)

/-- `fs_format` on a disk id. -/
def fsFormatOn (id hidden : Nat) (label : Option (List UInt8)) (f : Fs) : Int × Fs :=
  let r := fsFormat hidden label (f.disks id)
  (r.1, { f with disks := Function.update f.disks id r.2 })

/-- The state after a call. After a division by zero it is the state of the fault. -/
def FsCall.next (call : FsCall) (s : FileSys) : FileSys :=
  match call with
  | .mount letter id => s.setFs (fsMountOn letter id s.toFs).2
  | .unmount letter => s.setFs (fsUnmountOf letter s.toFs).2
  | .setDrive letter => s.setFs (fsSetDrive letter s.toFs).2
  | .format id hidden label => s.setFs (fsFormatOn id hidden label s.toFs).2
  | .chdir path => s.setFs (fsChdir path s.toFs).2
  | .opens path => s.setFs (fsOpen path s.toFs).2
  | .close h => s.setFs (fsClose h s.toFs).2
  | .read h n => s.setFs (fsRead h n s.toFs).2
  | .write h data => s.setFs (fsWrite h data s.toFs).2
  | .tree call => s.setFs (call.run s.toFs).2
  | .opendir path => (fsOpendir path s).2
  | .readdir h => (fsReaddir h s).2
  | .closedir h => (fsClosedir h s).2

/-- Nothing mounted, nothing open. -/
def FileSys.start (disks : Nat → Disk) : FileSys where
  disks := disks
  vols := fun _ => .zero
  currentDrive := none
  handles := fun _ => ⟨false, 0, 0, 0, 0, 0, 0⟩
  fault := false
  taken := []
  dirhs := fun _ => ⟨false, 0, 0, 0⟩

end Zenbite.Fat
