import TimbOS.Native.Floppy

/-!
# The device manager

`DeviceManager` of `devmanager.cpp` keeps devices by their names, and `floppy_probe` gives it the
floppy controller and the first drive. A pointer to a device is the address of the object, which
the conversions between `IDriverBase*` and `IBlockDevice*` do not change. The messages to the
console and the `children` of a node, which nothing uses, are left out.
-/

namespace TimbOS.Native

/-- What an `IDriverBase*` points to. -/
structure Device where
  address : Nat
  /-- The object is an `IBlockDevice`. -/
  isBlockDevice : Bool
  deriving DecidableEq, Repr

/-- What an `IBlockDevice*` points to. -/
abbrev BlockDevice := {dev : Device // dev.isBlockDevice = true}

/-- `DriverTreeNode`, with the characters of its name. -/
structure DriverTreeNode where
  name : List UInt8
  driver : Device
  deriving DecidableEq, Repr

/-- `_devices` -/
structure DeviceManager where
  devices : List DriverTreeNode
  deriving DecidableEq, Repr

namespace DeviceManager

/-- A new `DeviceManager`. -/
def empty : DeviceManager := ⟨[]⟩

/-- `add_device( IDriverBase* dev, name )` -/
def addDriver (m : DeviceManager) (dev : Device) (name : List UInt8) : DeviceManager :=
  ⟨m.devices ++ [⟨name, dev⟩]⟩

/-- `add_device( IBlockDevice* dev, name )` -/
def addBlockDevice (m : DeviceManager) (dev : BlockDevice) (name : List UInt8) : DeviceManager :=
  -- the pointer is stored as an `IDriverBase*`
  ⟨m.devices ++ [⟨name, dev.1⟩]⟩

/-- The loop of `get`. -/
def getLoop (path : List UInt8) : List DriverTreeNode → Option Device
  | [] => none
  | node :: rest => if node.name = path then some node.driver else getLoop path rest

/-- `get( path )`: what the `IBlockDevice*` that is returned really points to. -/
def get (m : DeviceManager) (path : List UInt8) : Option Device := getLoop path m.devices

end DeviceManager

namespace Floppy

/-- `(FloppyDriveType)nibble`. The drive treats a number without an enumerator like
    `FloppyDriveNone`. -/
def FloppyDriveType.ofNibble : Nat → FloppyDriveType
  | 1 => .floppyDrive360k
  | 2 => .floppyDrive1_2M
  | 3 => .floppyDrive720k
  | 4 => .floppyDrive1_44M
  | 5 => .floppyDrive2_88M
  | _ => .floppyDriveNone

/-- `"/floppy"` -/
def controllerName : List UInt8 := ['/', 'f', 'l', 'o', 'p', 'p', 'y'].map Char.toUInt8

/-- `"/floppy/0"` -/
def floppy0Name : List UInt8 := controllerName ++ ['/', '0'].map Char.toUInt8

/-- `floppy_probe( mgr )`, with what the second port delivers and the addresses of the controller
    and the first drive: the manager, and the types of the drives that are constructed. -/
def floppyProbe (driveTypes : UInt8) (controller floppy0 : Nat) (mgr : DeviceManager) :
    DeviceManager × List FloppyDriveType :=
  if driveTypes ≠ 0 then
    let mgr := mgr.addDriver ⟨controller, false⟩ controllerName
    let driveType0 := driveTypes.toNat >>> 4
    let driveType1 := driveTypes.toNat &&& 0xF
    let (mgr, drives) :=
      if driveType0 ≠ 0 then
        (mgr.addBlockDevice ⟨⟨floppy0, true⟩, rfl⟩ floppy0Name, [.ofNibble driveType0])
      else
        (mgr, [])
    -- the second drive is constructed, but nobody gets to know it
    (mgr, if driveType1 ≠ 0 then drives ++ [.ofNibble driveType1] else drives)
  else
    (mgr, [])

end Floppy

end TimbOS.Native
