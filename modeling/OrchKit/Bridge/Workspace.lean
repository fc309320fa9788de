import OrchKit.Bridge.Records
import OrchKit.Data.Table

/-! # Files of a workspace

Files under their paths, as far as a patch looks at them: what `stat` reports, the bytes
and the extended attributes. A patch stages its replacement beside the target and renames
it over the target.
-/

namespace OrchKit.Bridge

open Table

abbrev Xattrs := List (Bytes × Bytes)

structure Inode where
  dev : UInt64
  ino : UInt64
  mode : UInt64
  uid : UInt64
  gid : UInt64
  nlink : UInt64
  mtimeNs : UInt64
  ctimeNs : UInt64
  flags : UInt64
  data : Bytes
  xattrs : Xattrs
  ino_ne_zero : ino ≠ 0
  deriving DecidableEq

/-- What is carried over from the target to its replacement. -/
structure Metadata where
  mode : UInt64
  uid : UInt64
  gid : UInt64
  flags : UInt64
  xattrs : Xattrs
  deriving DecidableEq

abbrev Files := Table String Inode

namespace Inode

variable (f : Inode)

def signature : FileSignature where
  dev := f.dev.toNat
  ino := f.ino.toNat
  mode := f.mode.toNat
  uid := f.uid.toNat
  gid := f.gid.toNat
  nlink := f.nlink.toNat
  size := f.data.length
  mtimeNs := f.mtimeNs.toNat
  ctimeNs := f.ctimeNs.toNat
  flags := f.flags.toNat

def metadata : Metadata := ⟨f.mode, f.uid, f.gid, f.flags, f.xattrs⟩

/-- `_require_regular`, and the size `_capture` admits. -/
def regular (uid : ℕ) : Bool :=
  isRegular f.mode.toNat && f.uid.toNat = uid && f.nlink = 1 && f.mode.toNat &&& 0o7000 = 0 &&
    f.flags = 0 && f.data.length ≤ workerMaxOutputBytes

/-- The bounds `read_file_metadata` sets to extended attributes. -/
def attributesBounded : Bool :=
  let names := f.xattrs.map Prod.fst
  names.length ≤ 32 && names.Nodup && names.all (fun name => name ≠ [] && 0 ∉ name) &&
    (names.map List.length).sum ≤ 4096 &&
    (f.xattrs.map fun a => a.2.length).sum ≤ 65536

/-- `_capture` accepts the file. -/
def capturable (uid : ℕ) : Bool := f.regular uid && f.attributesBounded

/-- The value `_capture` returns. -/
def content (digests : Digests) : Content where
  identity := f.signature
  sha256 := digests.content f.data
  sizeBytes := f.data.length
  xattrsDigest := digests.xattrs f.xattrs

/-- `os.fchmod` of the permission bits, `os.fchown` and the extended attributes. -/
def withMetadata (m : Metadata) (now : UInt64) : Inode :=
  { f with mode := f.mode - f.mode % 4096 + m.mode % 4096, uid := m.uid, gid := m.gid,
           xattrs := m.xattrs, ctimeNs := now }

end Inode

/-- What the system gives a new file. -/
structure NewInode where
  dev : UInt64
  ino : UInt64
  gid : UInt64
  ino_ne_zero : ino ≠ 0

/-- A new private regular file. -/
def NewInode.file (n : NewInode) (uid now : UInt64) : Inode where
  dev := n.dev
  ino := n.ino
  mode := 0o100600
  uid := uid
  gid := n.gid
  nlink := 1
  mtimeNs := now
  ctimeNs := now
  flags := 0
  data := []
  xattrs := []
  ino_ne_zero := n.ino_ne_zero

def parentOf (path : String) : List Char :=
  (path.toList.reverse.dropWhile (· ≠ '/')).reverse

def beside (target : String) (name : TempName) : String := String.ofList (parentOf target ++ name)

end OrchKit.Bridge
