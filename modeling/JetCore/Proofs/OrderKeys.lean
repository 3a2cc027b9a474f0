import JetCore.Proofs.WriteOrder

/-!
# Orders and their rows

The table compares keys under its collation, the rest of the system compares
strings. A row keeps the id it was first inserted under and takes whatever a
later order with an equal key says, so the table is the map from order ids to
their last orders exactly when no two of the orders have different ids that
compare equal.
-/

namespace JetCore

open Lib

variable {P : Primitives} {w : Pydantic} {client : BusClient}
  {collate : Text → Text}

variable (P w client collate) in
theorem handle_commits {d : Delivery} (hd : d.attempt = .commits)
    {event : ReceivedEvent} {request : OrderCreatedRequest}
    (hrequest : decodeOrderCreated event.payload = .ok request) (s : DbWorld) :
    (handle P w client collate d event s).2.orders =
      s.orders.upsert collate request := by
  rw [handle.eq_def, hrequest]
  simp only [hd]
  rfl

/-- A delivery of an order of one tea that commits. -/
def teaDelivery (orderId : String) : Delivery × ReceivedEvent :=
  (sampleDelivery .commits, {
    event := ⟨⟨{
        eventId := "019b76da-a800-7000-8000-000000000001"
        eventCreated := Sample.newYear
        eventType := "OrderCreated"
        eventSchemaVersion := "1.0.0"
        sourceServiceId := Sample.client.serviceId },
      ⟨encryptionAlgorithm, []⟩, ""⟩⟩
    payload := Json.dumps (Json.object [
      ("orderId", Json.string orderId), ("item", Json.string "tea")])
    msg := ⟨1, "events.orders.OrderCreated", [], 1⟩ })

theorem teaDelivery_decodes {orderId : String}
    (hid : Text.ofString orderId ≠ []) :
    decodeOrderCreated (teaDelivery orderId).2.payload =
      .ok ⟨Text.ofString orderId, Text.ofString "tea", 1⟩ :=
  decodeOrderCreated_dumps hid (by decide)

end JetCore
