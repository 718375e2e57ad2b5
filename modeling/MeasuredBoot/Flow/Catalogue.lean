import MeasuredBoot.Flow

/-!
# Built-in flows

The flows of the supported platforms, and the `root` flow, which detects the platform of an image
and switches to its flow. `Flow.named?` looks a flow up.
-/

namespace MeasuredBoot

namespace Step

/-- The step with a single action. -/
def single (action : Action) : Step := .static [action]

/-- Switches to another flow. -/
def switchTo (flow : Flow) : Step := single (.switchTo flow)

/-- Aborts the boot. -/
def panic (message : String) : Step := single (.panic message)

/-- Starts the trusted platform module unless it runs at the locality already. -/
def initTpm (locality : UInt8) : Step := single (.initTpm locality)

/-- Extends a PCR with data. -/
def extend (pcr : UInt8) (source : DataSource) : Step := single (.extend pcr source)

end Step

namespace Flow

/-- Intel Boot Guard: PCR 0 is extended twice, from locality 3. -/
def intel : Flow :=
  .mk "intel" [.initTpm 3, .platform .pcr0Data, .platform .ibb]

/-- AMD: the Embedded Firmware Structure is logged and PCR 0 is extended with the BIOS directory
tables. -/
def amd : Flow :=
  .mk "amd" [.initTpm 0, .platform .embeddedFirmware, .platform .biosDirectory]

/-- Firmware of the Open Compute Project: PCR 0 is extended with the vendor version marker. -/
def ocpPei : Flow :=
  .mk "ocp-pei" [
    .initTpm 0,
    .guarded .vendorVersionPresent (.platform .vendorVersion),
    .guarded (.not .vendorVersionPresent) (.panic "not an OCP v1 firmware")]

/-- Switches to the flow of the first platform that is detected. -/
def root : Flow :=
  .mk "root" [
    .guarded .fitPresent (.switchTo intel),
    .guarded .embeddedFirmwarePresent (.switchTo amd),
    .panic "unknown flow: neither AMD nor Intel"]

/-- The built-in flows. -/
def catalogue : List Flow := [root, intel, amd, ocpPei]

/-- The built-in flow of a name, in any case of its ASCII letters. -/
def named? (name : String) : Option Flow :=
  let wanted := name.map Char.toLower
  if wanted = "ocppei" then some ocpPei else catalogue.find? (·.name == wanted)

end Flow

end MeasuredBoot
