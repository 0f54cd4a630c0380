/-
The core registry, which every store holds from the start.

Its elements name what network measurements are about: instants and periods,
the addresses and ports of the parties, counts of packets and octets, delays,
and the software that measures.
-/
import Measurement.Registry.Basic

set_option autoImplicit false

namespace Measurement.Registry

/-- The URI of the core registry (`CORE_REGISTRY_URI`). -/
def coreUri : String := "http://ict-mplane.eu/registry/core"

/-- The elements of the core registry: name, primitive and description. -/
def coreElements : List (String × Primitive × String) :=
  [("start", .time, "Start time of the measurement or interval"),
   ("end", .time, "End time of the measurement or interval"),
   ("time", .time, "Time at which a single observation was made"),
   ("duration.s", .natural, "Duration of the measurement in seconds"),
   ("period.s", .natural, "Period between observations in seconds"),
   ("count", .natural, "Number of observations"),
   ("source.ip4", .address, "IPv4 address of the measurement source"),
   ("source.ip6", .address, "IPv6 address of the measurement source"),
   ("source.port", .natural, "Transport port at the measurement source"),
   ("source.interface", .string, "Interface name at the measurement source"),
   ("source.device", .string, "Device identifier of the measurement source"),
   ("destination.ip4", .address, "IPv4 address of the measurement target"),
   ("destination.ip6", .address, "IPv6 address of the measurement target"),
   ("destination.port", .natural, "Transport port at the measurement target"),
   ("destination.url", .url, "URL of the measurement target"),
   ("intermediate.ip4", .address, "IPv4 address of an on-path node"),
   ("intermediate.ip6", .address, "IPv6 address of an on-path node"),
   ("hops.ip", .natural, "IP hop count to the target"),
   ("packets", .natural, "Number of packets"),
   ("packets.ip", .natural, "Number of IP packets"),
   ("packets.lost", .natural, "Number of packets lost"),
   ("octets.ip", .natural, "Number of IP octets"),
   ("delay.twoway.icmp.us", .natural, "Two-way ICMP delay in microseconds"),
   ("delay.twoway.icmp.us.min", .natural, "Minimum two-way ICMP delay in microseconds"),
   ("delay.twoway.icmp.us.max", .natural, "Maximum two-way ICMP delay in microseconds"),
   ("delay.twoway.icmp.us.mean", .natural, "Mean two-way ICMP delay in microseconds"),
   ("delay.twoway.icmp.us.count", .natural, "Number of two-way ICMP delay samples"),
   ("delay.oneway.udp.us", .natural, "One-way UDP delay in microseconds"),
   ("rtt.ms", .real, "Round-trip time in milliseconds"),
   ("bandwidth.bps", .natural, "Bandwidth in bits per second"),
   ("reachable", .boolean, "Whether the target answered"),
   ("url", .url, "Generic URL"),
   ("label", .string, "Free-form label"),
   ("System_type", .string, "Type of the component software"),
   ("System_version", .string, "Version of the component software"),
   ("System_ID", .string, "Identifier of the component instance")]

/-- The core registry. -/
def core : Registry :=
  ⟨coreUri, 0, Table.ofList (coreElements.map fun e =>
    (e.1, ⟨e.1, e.2.1, some e.2.2, coreUri⟩))⟩

end Measurement.Registry
