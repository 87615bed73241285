import TimbOS.Native.DevManager

/-!
# Devices by name

The device manager has one list for drivers and block devices, and `get` takes whatever it finds
first under a name for a block device.

## Key results

- `get_registerAll`: what `get` returns after any sequence of registrations
- `lookupTyped_iff`: exactly when this is the first block device with the name
- `get_controller`: the floppy controller, taken for a block device
-/

namespace TimbOS.Native.DeviceManager

/-- A call of `add_device`, through either overload. -/
inductive Registration where
  | driver (dev : Device) (name : List UInt8)
  | blockDevice (dev : BlockDevice) (name : List UInt8)

namespace Registration

def add (m : DeviceManager) : Registration → DeviceManager
  | .driver dev name => m.addDriver dev name
  | .blockDevice dev name => m.addBlockDevice dev name

def device : Registration → Device
  | .driver dev _ => dev
  | .blockDevice dev _ => dev.1

def name : Registration → List UInt8
  | .driver _ name => name
  | .blockDevice _ name => name

end Registration

/-- The manager after some calls of `add_device`. -/
def registerAll (calls : List Registration) : DeviceManager :=
  calls.foldl Registration.add empty

/-- The first device that was added under the name. -/
def firstAdded (calls : List Registration) (path : List UInt8) : Option Device :=
  (calls.find? fun call => call.name = path).map Registration.device

/-- The first block device that was added under the name. -/
def firstBlockDevice (calls : List Registration) (path : List UInt8) : Option Device :=
  (calls.find? fun call => call.name = path ∧ call.device.isBlockDevice = true).map
    Registration.device

/-- `get` returns the first block device with the name, or null if there is none. -/
def LookupTyped (calls : List Registration) (path : List UInt8) : Prop :=
  (registerAll calls).get path = firstBlockDevice calls path

section Lookup

variable {calls : List Registration} {path : List UInt8}

theorem devices_add (m : DeviceManager) (call : Registration) :
    (call.add m).devices = m.devices ++ [⟨call.name, call.device⟩] := by
  cases call <;> rfl

/-- The list holds the devices in the order of the calls. -/
theorem devices_registerAll (calls : List Registration) :
    (registerAll calls).devices = calls.map fun call => ⟨call.name, call.device⟩ := by
  induction calls using List.reverseRecOn with
  | nil => rfl
  | append_singleton calls call ih =>
    rw [registerAll, List.foldl_append, List.map_append, ← ih]
    exact devices_add (registerAll calls) call

theorem firstAdded_cons (call : Registration) :
    firstAdded (call :: calls) path =
      if call.name = path then some call.device else firstAdded calls path := by
  rw [firstAdded, List.find?_cons]
  by_cases hname : call.name = path
  · simp [hname]
  · simp [hname, firstAdded]

theorem firstBlockDevice_cons (call : Registration) :
    firstBlockDevice (call :: calls) path =
      if call.name = path ∧ call.device.isBlockDevice = true then some call.device
      else firstBlockDevice calls path := by
  rw [firstBlockDevice, List.find?_cons]
  by_cases hcall : call.name = path ∧ call.device.isBlockDevice = true
  · simp [hcall]
  · simp [hcall, firstBlockDevice]

theorem getLoop_map (path : List UInt8) (calls : List Registration) :
    getLoop path (calls.map fun call => ⟨call.name, call.device⟩) = firstAdded calls path := by
  induction calls with
  | nil => rfl
  | cons call calls ih => rw [List.map_cons, getLoop, ih, firstAdded_cons]

theorem get_registerAll (calls : List Registration) (path : List UInt8) :
    (registerAll calls).get path = firstAdded calls path := by
  rw [DeviceManager.get, devices_registerAll, getLoop_map]

theorem isBlockDevice_of_firstBlockDevice {dev : Device}
    (h : firstBlockDevice calls path = some dev) : dev.isBlockDevice = true := by
  obtain ⟨call, hcall, rfl⟩ := Option.map_eq_some_iff.mp h
  have hfound := List.find?_some hcall
  simp only [decide_eq_true_eq] at hfound
  exact hfound.2

/-- If the first device with the name is a block device, it is the first of these. -/
theorem firstBlockDevice_eq (h : ∀ dev ∈ firstAdded calls path, dev.isBlockDevice = true) :
    firstBlockDevice calls path = firstAdded calls path := by
  induction calls with
  | nil => rfl
  | cons call calls ih =>
    rw [firstAdded_cons] at h
    rw [firstAdded_cons, firstBlockDevice_cons]
    by_cases hname : call.name = path
    · rw [if_pos hname] at h ⊢
      rw [if_pos ⟨hname, h call.device rfl⟩]
    · rw [if_neg hname] at h ⊢
      rw [if_neg fun hcall => hname hcall.1]
      exact ih h

end Lookup

/-- The lookup is right exactly if the first device that was added under the name, if there is
    one, is a block device. -/
theorem lookupTyped_iff (calls : List Registration) (path : List UInt8) :
    LookupTyped calls path ↔ ∀ dev ∈ firstAdded calls path, dev.isBlockDevice = true := by
  rw [LookupTyped, get_registerAll]
  constructor
  · intro h dev hdev
    rw [h] at hdev
    exact isBlockDevice_of_firstBlockDevice hdev
  · intro h
    exact (firstBlockDevice_eq h).symm

/-! ## The floppy controller -/

/-- What `floppy_probe` registers for one 1.44M drive. -/
def probeCalls : List Registration :=
  [.driver ⟨0xD0000010, false⟩ Floppy.controllerName,
    .blockDevice ⟨⟨0xD0000030, true⟩, rfl⟩ Floppy.floppy0Name]

theorem probeCalls_eq :
    (Floppy.floppyProbe 0x40 0xD0000010 0xD0000030 empty).1 = registerAll probeCalls := rfl

/-- The controller is found as a block device. -/
theorem get_controller : ¬ ∀ calls path, LookupTyped calls path := by
  intro h
  have hlookup : (registerAll probeCalls).get Floppy.controllerName = none :=
    h probeCalls Floppy.controllerName
  exact absurd hlookup (by decide)

end TimbOS.Native.DeviceManager
