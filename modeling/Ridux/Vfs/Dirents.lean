import Ridux.Net.Unix
import Ridux.Vfs.Listdir

/-!
# Directory entries

`real_sys_getdents64` of `linux_syscalls.c`: the entries of a directory come from lists in the
source, from the task and descriptor tables, from the listening sockets, and from the listing of the
VFS.  The position of a descriptor is the number of entries that were passed.

* `builtinDirents`: the lists;
* `DirWorld`: what the call reads; `DirWorld.entries`: the entries of a directory, in order;
* `getdentsEmit`, `emitAll`, `DirWorld.realSysGetdents64`: the call;
* `DirWorld.Child`: the names in a directory.
-/

namespace Ridux

open Lib

/-! ### Records -/

/-- `C3_DT_CHR`, `C3_DT_DIR`, `C3_DT_REG`, `C3_DT_LNK` and `C3_DT_SOCK`. -/
inductive DirentType
  | chr | dir | reg | lnk | sock
  deriving DecidableEq

def DirentType.code : DirentType → UInt8
  | chr => 2
  | dir => 4
  | reg => 8
  | lnk => 10
  | sock => 12

/-- `linux_dirent64_t`. -/
structure Dirent where
  ino : ℕ
  off : ℕ
  reclen : ℕ
  type : UInt8
  name : Bytes
  deriving DecidableEq

/-- `sizeof(linux_dirent64_t)`: 275 bytes of fields, aligned to 8. -/
def direntSize : ℕ := 280

/-- `sizeof(d_name)`. -/
def direntNameMax : ℕ := 256

abbrev DirEntry : Type := Bytes × DirentType

/-! ### The lists of the source -/

def chrs (names : List String) : List DirEntry := names.map fun s => (ascii s, .chr)
def dirs (names : List String) : List DirEntry := names.map fun s => (ascii s, .dir)
def regs (names : List String) : List DirEntry := names.map fun s => (ascii s, .reg)
def lnks (names : List String) : List DirEntry := names.map fun s => (ascii s, .lnk)
def socks (names : List String) : List DirEntry := names.map fun s => (ascii s, .sock)

def rootNames : List DirEntry :=
  dirs ["dev", "proc", "sys", "tmp", "home", "etc", "run", "usr", "lib", "lib64", "opt", "memfd"]

def procNames : List DirEntry :=
  dirs ["self"] ++ regs ["cpuinfo", "meminfo", "stat", "version", "uptime", "mounts", "filesystems",
    "loadavg", "cmdline"] ++ dirs ["net", "sys"]

def pidNames : List DirEntry :=
  regs ["status", "stat", "comm", "maps", "smaps", "statm", "cmdline", "environ", "auxv", "io",
    "limits", "cgroup"] ++ lnks ["exe", "cwd"] ++ dirs ["fd"] ++ regs ["mounts", "mountinfo"]

def selfNames : List DirEntry :=
  regs ["status", "stat", "comm", "maps", "smaps", "statm", "cmdline", "environ", "auxv", "io",
    "limits", "cgroup"] ++ lnks ["exe", "cwd"] ++ dirs ["fd", "task"] ++ regs ["mounts", "mountinfo"]

def taskNames : List DirEntry :=
  regs ["status", "stat", "comm", "maps", "smaps", "statm", "cmdline", "limits"] ++ dirs ["fd"]

/-- The directory of the adapter's driver, by `c3_vbox_gpu_mode`. -/
def gpuDriver (vbox : Bool) : String := if vbox then "vmwgfx" else "virtio-pci"

/-- The comparisons of `real_sys_getdents64` behind `/proc/self/fd`, in their order, with the
entries of each directory. -/
def builtinDirents (vbox : Bool) : List (List String × List DirEntry) :=
  [(["/proc/net"], regs ["dev", "route", "unix"]),
   (["/proc/sys"], dirs ["kernel", "vm", "net"]),
   (["/proc/sys/kernel"], regs ["ostype", "hostname", "osrelease", "pid_max", "threads-max"] ++
      dirs ["random"]),
   (["/proc/sys/kernel/random"], regs ["boot_id", "uuid"]),
   (["/proc/sys/vm"], regs ["overcommit_memory", "max_map_count", "swappiness"]),
   (["/proc/sys/net"], dirs ["core", "ipv4"]),
   (["/proc/sys/net/core"], regs ["somaxconn"]),
   (["/proc/sys/net/ipv4"], regs ["ip_local_port_range"]),
   (["/sys"], dirs ["kernel", "devices", "dev", "class", "fs", "module", "firmware"]),
   (["/sys/dev"], dirs ["char"]),
   (["/sys/dev/char"], lnks ["226:0", "226:128"] ++ dirs ["13:64", "13:65"]),
   (["/sys/dev/char/226:0", "/sys/dev/char/226:128"], regs ["dev", "uevent"] ++ lnks ["device",
      "subsystem"]),
   (["/sys/dev/char/13:64", "/sys/dev/char/13:65"], regs ["uevent"]),
   (["/sys/dev/char/226:0/device", "/sys/dev/char/226:128/device"], regs ["vendor", "device",
      "subsystem_vendor", "subsystem_device", "class", "uevent"] ++ dirs ["drm"]),
   (["/sys/kernel"], regs ["ostype", "hostname", "osrelease"] ++ dirs ["mm", "security", "debug"]),
   (["/sys/kernel/mm"], dirs ["transparent_hugepage"]),
   (["/sys/kernel/mm/transparent_hugepage"], regs ["enabled", "defrag"]),
   (["/sys/kernel/security"], regs ["lsm"]),
   (["/sys/kernel/debug"], dirs ["tracing"]),
   (["/sys/kernel/debug/tracing"], regs ["trace_clock"]),
   (["/sys/devices"], dirs ["system", "virtual", "pci0000:00"]),
   (["/sys/devices/pci0000:00"], dirs ["0000:00:02.0"]),
   (["/sys/devices/pci0000:00/0000:00:02.0", "/sys/bus/pci/devices/0000:00:02.0"],
      regs ["vendor", "device", "subsystem_vendor", "subsystem_device", "class", "uevent"] ++
      dirs ["drm"] ++ lnks ["subsystem", "driver"]),
   (["/sys/devices/pci0000:00/0000:00:02.0/drm"], dirs ["card0", "renderD128"]),
   (["/sys/devices/pci0000:00/0000:00:02.0/drm/card0",
      "/sys/devices/pci0000:00/0000:00:02.0/drm/renderD128"], regs ["dev", "uevent"] ++
      lnks ["device", "subsystem"]),
   (["/sys/devices/system"], dirs ["cpu", "memory", "node"]),
   (["/sys/devices/system/cpu"], regs ["online", "possible", "present"] ++ dirs ["cpu0"]),
   (["/sys/devices/system/cpu/cpu0"], dirs ["topology", "cpufreq"]),
   (["/sys/devices/system/cpu/cpu0/topology"], regs ["core_id", "physical_package_id"]),
   (["/sys/devices/system/cpu/cpu0/cpufreq"], regs ["scaling_cur_freq"]),
   (["/sys/devices/system/memory"], regs ["block_size_bytes"]),
   (["/sys/devices/system/node"], regs ["online"]),
   (["/sys/bus"], dirs ["input", "pci"]),
   (["/sys/bus/pci"], dirs ["devices", "drivers"]),
   (["/sys/bus/pci/devices"], lnks ["0000:00:02.0"]),
   (["/sys/bus/pci/drivers"], dirs [gpuDriver vbox]),
   (["/sys/bus/pci/drivers/virtio-pci", "/sys/bus/pci/drivers/vmwgfx"], dirs ["module"]),
   (["/sys/bus/pci/drivers/virtio-pci/module", "/sys/bus/pci/drivers/vmwgfx/module"],
      regs ["version"]),
   (["/sys/bus/input"], dirs ["devices"]),
   (["/sys/bus/input/devices"], lnks ["input0", "event0", "input1", "event1"]),
   (["/sys/bus/input/devices/input0"], dirs ["event0"] ++ regs ["name", "phys", "uniq",
      "properties", "modalias"] ++ dirs ["id"] ++ regs ["uevent"] ++ dirs ["capabilities"] ++
      lnks ["subsystem"]),
   (["/sys/bus/input/devices/input1"], dirs ["event1"] ++ regs ["name", "phys", "uniq",
      "properties", "modalias"] ++ dirs ["id"] ++ regs ["uevent"] ++ dirs ["capabilities"] ++
      lnks ["subsystem"]),
   (["/sys/bus/input/devices/input0/event0", "/sys/bus/input/devices/event0",
      "/sys/bus/input/devices/input1/event1", "/sys/bus/input/devices/event1"], regs ["dev",
      "uevent"] ++ lnks ["device", "subsystem"]),
   (["/sys/bus/input/devices/input0/capabilities", "/sys/bus/input/devices/input1/capabilities"],
      regs ["ev", "key", "rel", "abs", "prop"]),
   (["/sys/bus/input/devices/input0/id", "/sys/bus/input/devices/input1/id"], regs ["bustype",
      "vendor", "product", "version"]),
   (["/sys/dev"], dirs ["char"]),
   (["/sys/dev/char"], dirs ["226:0", "226:128", "13:64", "13:65"]),
   (["/sys/dev/char/13:64", "/sys/dev/char/13:65"], regs ["uevent"] ++ dirs ["device"] ++
      lnks ["subsystem"]),
   (["/sys/dev/char/13:64/device", "/sys/dev/char/13:65/device"], regs ["name", "phys", "uniq",
      "properties", "modalias"] ++ dirs ["id"] ++ regs ["uevent"] ++ dirs ["capabilities"]),
   (["/sys/dev/char/13:64/device/capabilities", "/sys/dev/char/13:65/device/capabilities"],
      regs ["ev", "key", "rel", "abs", "prop"]),
   (["/sys/dev/char/13:64/device/id", "/sys/dev/char/13:65/device/id"], regs ["bustype",
      "vendor", "product", "version"]),
   (["/sys/devices/virtual"], dirs ["dmi", "input"]),
   (["/sys/devices/virtual/dmi"], dirs ["id"]),
   (["/sys/devices/virtual/dmi/id"], regs ["product_name", "sys_vendor", "board_name"]),
   (["/sys/class"], dirs ["drm", "net", "power_supply", "graphics", "dmi", "input"]),
   (["/sys/class/drm"], lnks ["card0", "renderD128"]),
   (["/sys/class/drm/card0"], regs ["dev", "uevent"] ++ lnks ["device", "subsystem"]),
   (["/sys/class/drm/card0/device", "/sys/class/drm/renderD128/device"], regs ["vendor",
      "device", "subsystem_vendor", "subsystem_device", "uevent"] ++ dirs ["driver"]),
   (["/sys/class/drm/card0/device/driver", "/sys/class/drm/renderD128/device/driver",
      "/sys/devices/pci0000:00/0000:00:02.0/driver"], dirs ["module"]),
   (["/sys/class/drm/card0/device/driver/module",
      "/sys/class/drm/renderD128/device/driver/module",
      "/sys/devices/pci0000:00/0000:00:02.0/driver/module"], regs ["version"]),
   (["/sys/class/drm/renderD128"], regs ["dev", "uevent"] ++ lnks ["device", "subsystem"]),
   (["/sys/class/net"], dirs ["lo", "eth0"]),
   (["/sys/class/net/lo"], regs ["address", "operstate", "mtu"]),
   (["/sys/class/net/eth0"], regs ["address", "operstate", "mtu", "speed", "carrier", "duplex"]),
   (["/sys/class/power_supply"], []),
   (["/sys/class/graphics"], dirs ["fb0"]),
   (["/sys/class/graphics/fb0"], regs ["name", "modes", "virtual_size", "bits_per_pixel"]),
   (["/sys/class/dmi"], dirs ["id"]),
   (["/sys/class/dmi/id"], regs ["product_name", "sys_vendor", "board_name"]),
   (["/sys/class/input"], lnks ["event0", "event1", "mice"]),
   (["/sys/devices/virtual/input"], dirs ["input0", "input1"]),
   (["/sys/devices/virtual/input/input0"], dirs ["event0"] ++ regs ["name", "phys", "uniq",
      "properties", "modalias"] ++ dirs ["id"] ++ regs ["uevent"] ++ dirs ["capabilities"] ++
      lnks ["subsystem"]),
   (["/sys/devices/virtual/input/input1"], dirs ["event1"] ++ regs ["name", "phys", "uniq",
      "properties", "modalias"] ++ dirs ["id"] ++ regs ["uevent"] ++ dirs ["capabilities"] ++
      lnks ["subsystem"]),
   (["/sys/devices/virtual/input/input0/event0", "/sys/devices/virtual/input/input1/event1"],
      regs ["dev", "uevent"] ++ lnks ["device", "subsystem"]),
   (["/sys/devices/virtual/input/input0/capabilities",
      "/sys/devices/virtual/input/input1/capabilities"], regs ["ev", "key", "rel", "abs", "prop"]),
   (["/sys/devices/virtual/input/input0/id", "/sys/devices/virtual/input/input1/id"],
      regs ["bustype", "vendor", "product", "version"]),
   (["/sys/class/input/event0", "/sys/class/input/event1", "/sys/class/input/mice"], regs ["dev",
      "name", "uevent"] ++ dirs ["device"] ++ lnks ["subsystem"]),
   (["/sys/class/input/event0/device", "/sys/class/input/event1/device"], regs ["name", "phys",
      "uniq", "properties", "modalias"] ++ dirs ["id"] ++ regs ["uevent"] ++
      dirs ["capabilities"]),
   (["/sys/class/input/event0/device/capabilities", "/sys/class/input/event1/device/capabilities"],
      regs ["ev", "key", "rel", "abs", "prop"]),
   (["/sys/class/input/event0/device/id", "/sys/class/input/event1/device/id"], regs ["bustype",
      "vendor", "product", "version"]),
   (["/sys/dev/char/226:0/device/drm", "/sys/dev/char/226:128/device/drm", "/sys/class/drm"],
      dirs ["card0", "renderD128"]),
   (["/sys/dev/char/226:0/device/drm/card0", "/sys/dev/char/226:128/device/drm/card0",
      "/sys/class/drm/card0"], regs ["dev", "uevent"] ++ dirs ["device"]),
   (["/sys/dev/char/226:0/device/drm/renderD128", "/sys/dev/char/226:128/device/drm/renderD128",
      "/sys/class/drm/renderD128"], regs ["dev", "uevent"] ++ dirs ["device"]),
   (["/sys/fs"], dirs ["cgroup", "selinux"]),
   (["/sys/fs/cgroup"], regs ["cgroup.controllers", "cgroup.subtree_control", "cgroup.procs"]),
   (["/sys/fs/selinux"], regs ["enforce"]),
   (["/sys/module"], dirs ["i915", "amdgpu", "nvidia"]),
   (["/sys/module/i915", "/sys/module/amdgpu", "/sys/module/nvidia"], regs ["version"]),
   (["/dev"], chrs ["null", "zero", "random", "urandom", "fuse", "tty", "tty0", "tty1",
      "console", "ptmx"] ++ dirs ["pts"] ++ chrs ["fb0"] ++ dirs ["dri", "input", "snd",
      "shm"] ++ chrs ["stdin", "stdout", "stderr"]),
   (["/dev/pts"], regs ["0"]),
   (["/dev/dri"], chrs ["card0", "renderD128"]),
   (["/dev/input"], chrs ["event0", "event1", "mice"]),
   (["/dev/snd"], chrs ["controlC0", "pcmC0D0p", "timer"]),
   (["/run"], dirs ["user", "dbus", "udev"]),
   (["/run/user"], dirs ["0", "1000"]),
   (["/run/user/0"], socks ["bus"]),
   (["/run/user/1000"], socks ["bus"] ++ dirs ["doc"]),
   (["/run/udev"], dirs ["data"]),
   (["/run/udev/data"], regs ["c10:229", "c13:64", "c13:65", "+input:event0", "+input:event1",
      "+input:input", "+input:input0", "+input:input1", "c226:0", "c226:128"]),
   (["/tmp"], dirs [".X11-unix"]),
   (["/tmp/.X11-unix"], socks ["X0"])]

/-! ### What the call reads -/

/-- A used slot of `g_tasks`: `live` unless it is free or a zombie, and which descriptors it has. -/
structure DirTask where
  pid : UInt32
  tgid : UInt32
  live : Bool
  fdOpen : ℕ → Bool

/-- What `real_sys_getdents64` reads besides the descriptor.  `isDir` is `c3_path_is_dir`. -/
structure DirWorld where
  vbox : Bool
  cur : DirTask
  tasks : List DirTask
  sockets : UnixNet
  vfs : Vfs
  isDir : Bytes → Bool
  vfs_paths : vfs.PathsFit
  bound_paths : ∀ i, 0 ∉ sockets.boundPath i ∧ (sockets.boundPath i).length < 108

/-- A number in front of a path, as an `int`, and what stands behind it. -/
def parseNumber (s : Bytes) : Option (UInt32 × Bytes) :=
  let isDigit := fun c : UInt8 => decide (0x30 ≤ c ∧ c ≤ 0x39)
  let digits := s.takeWhile isDigit
  let tail := s.dropWhile isDigit
  if digits = [] then none
  else if tail ≠ [] ∧ tail.head? ≠ some slash then none
  else some (digits.foldl (fun v c => v * 10 + (c - 0x30).toUInt32) 0, tail)

/-- `c3_parse_proc_pid_path`. -/
def parseProcPidPath (path : Bytes) : Option (UInt32 × Bytes) :=
  if startsWith path (ascii "/proc/") then parseNumber (path.drop 6) else none

/-- `c3_parse_proc_self_task_path`. -/
def parseProcSelfTaskPath (path : Bytes) : Option (UInt32 × Bytes) :=
  if startsWith path (ascii "/proc/self/task/") then parseNumber (path.drop 16) else none

/-- `C3_DIR_MARKER`. -/
def dirMarker : Bytes := ascii ".ridux_dir"

/-- `c3_unix_bound_socket_child_name`. -/
def boundSocketChildName (dir path : Bytes) : Option Bytes :=
  let name :=
    if dir = [] ∨ path = [] then none
    else if dir = [slash] then if path.head? = some slash then some (path.drop 1) else none
    else if startsWith path dir ∧ (path.drop dir.length).head? = some slash then
      some (path.drop (dir.length + 1))
    else none
  name.bind fun name => if name = [] ∨ hasToken name (ascii "/") then none else some name

/-- The names in the text of a listing: up to 255 bytes of a line, then past its newlines. -/
def listingNames : ℕ → Bytes → List Bytes
  | 0, _ => []
  | _, [] => []
  | n + 1, list =>
      let name := (list.takeWhile (· != newline)).take (direntNameMax - 1)
      name :: listingNames n ((list.drop name.length).dropWhile (· == newline))

/-- `sizeof(list)` in `real_sys_getdents64`. -/
def direntListMax : ℕ := 2048

namespace DirWorld

/-- `c3_task_by_pid`. -/
def taskByPid (w : DirWorld) (pid : UInt32) : Option DirTask := w.tasks.find? fun t => t.pid = pid

/-- The open descriptors of a task. -/
def fdEntries (t : DirTask) : List DirEntry :=
  ((List.range 512).filter t.fdOpen).map fun i => (decimal i, .lnk)

/-- The thread group of a task. -/
def group (t : DirTask) : UInt32 := if t.tgid ≠ 0 then t.tgid else t.pid

def taskEntries (tasks : List DirTask) : List DirEntry :=
  tasks.map fun t => (decimal t.pid.toNat, .dir)

/-- The comparisons in front of `/proc/self/fd`: the entries, none if the process or the thread is
gone, and whether the source then jumps to `dents_done`. -/
def firstEntries (w : DirWorld) (d : Bytes) : Option (List DirEntry) × Bool :=
  if d = ascii "/" then (some rootNames, false)
  else if d = ascii "/proc" then (some (procNames ++ taskEntries w.tasks), false)
  else match parseProcPidPath d with
  | some (pid, []) => ((w.taskByPid pid).map fun _ => pidNames, false)
  | other =>
    if other.map Prod.snd = some (ascii "/fd") then
      (other.bind fun p => (w.taskByPid p.1).map fdEntries, false)
    else if d = ascii "/proc/self" then (some selfNames, false)
    else if d = ascii "/proc/self/task" then
      (some (taskEntries (w.tasks.filter fun t => t.live ∧ group t = group w.cur)), false)
    else match parseProcSelfTaskPath d with
    | some (tid, []) => ((w.taskByPid tid).map fun _ => taskNames, true)
    | _ => (some [], false)

/-- The displays of a user, listed in front of the other names of `/run/user/0` and
`/run/user/1000`. -/
def displayNames (w : DirWorld) (d : Bytes) : List Bytes :=
  let paths := ((List.range sockMax).filter w.sockets.boundPathIsListener).map w.sockets.boundPath
  if d = ascii "/run/user/0" then
    (paths.filter fun p => startsWith p (ascii "/run/user/0/wayland-")).map (List.drop 12)
  else if d = ascii "/run/user/1000" then
    (paths.filter fun p => startsWith p (ascii "/run/user/1000/wayland-")).map (List.drop 15)
  else []

/-- The entries of the second group of comparisons that are always there. -/
def tableEntries (w : DirWorld) (d : Bytes) : List DirEntry :=
  if d = ascii "/proc/self/fd" then fdEntries w.cur
  else ((builtinDirents w.vbox).find? fun row => row.1.any fun key => ascii key = d).elim [] Prod.snd

/-- A listener that the loop over the bound paths passes over. -/
def hiddenSocket (path : Bytes) : Bool := UnixNet.isWaylandDisplay path || hasToken path (ascii "/bus")

/-- The listeners that are bound in the directory. -/
def socketNames (w : DirWorld) (d : Bytes) : List Bytes :=
  ((List.range sockMax).filter fun i => w.sockets.boundPathIsListener i ∧
    !hiddenSocket (w.sockets.boundPath i)).filterMap fun i =>
      boundSocketChildName d (w.sockets.boundPath i)

/-- The names of the VFS, from the text of its listing. -/
def fileNames (w : DirWorld) (d : Bytes) : List Bytes :=
  (kvfsListdir w.vfs d direntListMax).elim [] fun list =>
    (listingNames list.length list).filter fun name => name ≠ [] ∧ name ≠ dirMarker

/-- The type that the source gives to a name of the VFS. -/
def fileType (w : DirWorld) (d name : Bytes) : DirentType :=
  let cap := 2 * vfsPathMax
  if w.isDir (pathNormalizeAbs (pathBuild d name cap) cap) then .dir else .reg

/-- The entries behind `.` and `..`, none if the process or the thread is gone. -/
def entries (w : DirWorld) (d : Bytes) : Option (List DirEntry) :=
  let first := w.firstEntries d
  first.1.map fun es =>
    if first.2 then es
    else es ++ (w.displayNames d).map (fun n => (n, .sock)) ++ w.tableEntries d ++
      (w.socketNames d).map (fun n => (n, .sock)) ++
      (w.fileNames d).map fun n => (n, w.fileType d n)

end DirWorld

/-! ### The call -/

/-- `written` and `seq`, and the records in the buffer with their places. -/
structure DirBuf where
  written : ℕ
  seq : ℕ
  records : List (ℕ × Dirent)
  deriving DecidableEq

/-- `c3_getdents_emit`, with whether the buffer was full. -/
def getdentsEmit (count off : ℕ) (b : DirBuf) (e : DirEntry) : Bool × DirBuf :=
  if b.seq < off then (false, { b with seq := b.seq + 1 })
  else if b.written + direntSize > count then (true, b)
  else
    let de : Dirent :=
      { ino := b.seq + 1
        off := b.seq + 1
        reclen := direntSize
        type := e.2.code
        name := strlcpy direntNameMax e.1 }
    (false, ⟨b.written + direntSize, b.seq + 1, b.records ++ [(b.written, de)]⟩)

/-- Emit entries until the buffer is full. -/
def emitAll (count off : ℕ) : List DirEntry → DirBuf → Bool × DirBuf
  | [], b => (false, b)
  | e :: es, b =>
      let r := getdentsEmit count off b e
      if r.1 then r else emitAll count off es r.2

inductive DirErr
  | ebadf | enotdir | efault | einval | enoent
  deriving DecidableEq

/-- A descriptor: `FDKIND_DIR` with the path of its `g_c3_vfs_open` slot and its offset, or not. -/
inductive DirSlot
  | closed
  | other
  | dir (path : Option Bytes) (offset : ℕ)
  deriving DecidableEq

/-- `.` and `..`. -/
def dotEntries : List DirEntry := dirs [".", ".."]

/-- `real_sys_getdents64`; `dirp` says whether there is a buffer. -/
def DirWorld.realSysGetdents64 (w : DirWorld) (fd : DirSlot) (dirp : Bool) (count : ℕ) :
    Except DirErr DirBuf × DirSlot :=
  match fd with
  | .closed => (.error .ebadf, fd)
  | .other => (.error .enotdir, fd)
  | .dir path off =>
    if !dirp then (.error .efault, fd)
    else if count < direntSize then (.error .einval, fd)
    else match path with
    | none => (.error .ebadf, fd)
    | some d =>
      let dots := emitAll count off dotEntries ⟨0, 0, []⟩
      if dots.1 then (.ok dots.2, .dir path dots.2.seq)
      else match w.entries d with
      | none => (.error .enoent, fd)
      | some es =>
        let b := (emitAll count off es dots.2).2
        (.ok b, .dir path b.seq)

/-! ### What a listing should be -/

namespace DirWorld

variable (w : DirWorld) (d : DirPath) (count : ℕ → ℕ)

/-- The names that the source lists for the directory wherever files and sockets are. -/
def builtinNames : List Bytes :=
  let first := w.firstEntries d.val
  ((first.1.getD []) ++ if first.2 then [] else w.tableEntries d.val).map Prod.fst

/-- A listening socket is bound to the name `n` in the directory. -/
def HasSocket (n : Bytes) : Prop :=
  ∃ i < sockMax, w.sockets.boundPathIsListener i = true ∧ IsSegment n ∧
    w.sockets.boundPath i = d.front ++ n

/-- `n` is the name of a child of the directory. -/
def Child (n : Bytes) : Prop :=
  n ∈ w.builtinNames d ∨ w.HasSocket d n ∨ w.vfs.Has d n ∧ n ≠ dirMarker

/-- The descriptor before the `i`-th call on it, with `count i` bytes of room. -/
def fdAt : ℕ → DirSlot
  | 0 => .dir (some d.val) 0
  | i + 1 => (w.realSysGetdents64 (fdAt i) true (count i)).2

/-- What the `i`-th call returns. -/
def call (i : ℕ) : Except DirErr DirBuf := (w.realSysGetdents64 (w.fdAt d count i) true (count i)).1

/-- The names that the first `n` calls return. -/
def namesReturned (n : ℕ) : List Bytes :=
  (List.range n).flatMap fun i =>
    match w.call d count i with
    | .ok b => b.records.map fun r => r.2.name
    | .error _ => []

end DirWorld

/-- Records that follow each other from `pos` to `stop`, aligned to 8 bytes. -/
def Laid : ℕ → List (ℕ × Dirent) → ℕ → Prop
  | pos, [], stop => pos = stop
  | pos, (p, de) :: rest, stop =>
      p = pos ∧ 8 ∣ p ∧ p + de.reclen ≤ stop ∧ Laid (pos + de.reclen) rest stop

/-- The calls return each child once, behind `.` and `..`, and then 0. -/
def DirWorld.Lists (w : DirWorld) (d : DirPath) (count : ℕ → ℕ) : Prop :=
  ∃ n, (∀ i, ∃ b, w.call d count i = .ok b ∧ Laid 0 b.records b.written ∧ b.written ≤ count i ∧
      (b.written = 0 ↔ n ≤ i)) ∧
    ListsOnce (w.namesReturned d count n) fun x => x ∈ dotEntries.map Prod.fst ∨ w.Child d x

end Ridux
